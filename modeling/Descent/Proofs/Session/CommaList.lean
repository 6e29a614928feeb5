import Descent.Proofs.Session.Rounds

/-!
# Comma-separated lists

* `Text.PastComma`: the first offset without space behind a comma that has space around it;
* `Grammar.CommaStep`: the ways in which a round of a list ends.

A round takes an element and the space on both sides of it, and goes on behind a comma only. So
there is one element more than there are commas (`exists_listed`), and elements that never move back
pass a comma of the text in every round but the last (`goes_commaList_forward`).
-/

namespace Descent

/-! ## Commas in a text -/

/-- An offset of a text at which there is a comma. -/
def Text.CommaAt (text : List Char) (i : Nat) : Prop :=
  ∃ l r, l ++ ',' :: r = text ∧ Text.size l = i

/-- From one offset of a text to another there are space, a comma and space, and nothing else; no
more space follows. -/
def Text.PastComma (text : List Char) (i j : Nat) : Prop :=
  ∃ k, Text.PastSpace text i k ∧ Text.CommaAt text k ∧ Text.PastSpace text (k + 1) j

namespace Cursor

variable {c : Cursor}

theorem take?_comma (c : Cursor) :
    c.take? (.literal ",") =
      if c.next? = some ',' then (.ok (some ","), c.forward 1) else (.ok none, c) := by
  have hspan := literalSpan?_singleton (s := ",") (c := ',') rfl c.ahead
  have hextent := (spans_literal ",").extent?_eq c.ahead
  rw [hspan] at hextent
  rw [take?, hextent, next?]
  cases c.ahead with
  | nil => rfl
  | cons d cs =>
    by_cases hd : d = ','
    · subst hd
      rfl
    · simp [hd]

/-- A comma is one byte. -/
theorem commaAt_offset (h : c.next? = some ',') :
    Text.CommaAt c.text c.offset ∧ (c.forward 1).offset = c.offset + 1 := by
  obtain ⟨cs, hcs⟩ : ∃ cs, c.ahead = ',' :: cs := List.head?_eq_some_iff.1 h
  refine ⟨⟨c.behind.reverse, cs, ?_, Text.size_reverse _⟩, ?_⟩
  · rw [← hcs, text]
  · rw [offset_forward, hcs]
    rfl

end Cursor

namespace Session

variable {s : Session}

/-- The session behind the next character after any space. -/
def behindComma (s : Session) : Session :=
  { s with cursor := s.spaced.cursor.forward 1 }

theorem moves_behindComma (s : Session) : s.Moves s.behindComma :=
  s.moves_spaced.trans (.of_movesTo (Cursor.forward_movesTo s.spaced.cursor 1))

theorem behindComma_cut (s : Session) (h : s.spaced.cursor.next? = some ',') :
    ',' :: s.behindComma.cursor.ahead = s.spaced.cursor.ahead := by
  obtain ⟨cs, hcs⟩ : ∃ cs, s.spaced.cursor.ahead = ',' :: cs := List.head?_eq_some_iff.1 h
  have hahead : s.behindComma.cursor.ahead = s.spaced.cursor.ahead.drop 1 := rfl
  rw [hahead, hcs]
  rfl

theorem head?_behindComma (s : Session) (h : s.spaced.cursor.next? = some ',') :
    s.behindComma.cursor.behind.head? = some ',' := by
  obtain ⟨cs, hcs⟩ : ∃ cs, s.spaced.cursor.ahead = ',' :: cs := List.head?_eq_some_iff.1 h
  have hbehind : s.behindComma.cursor.behind =
      (s.spaced.cursor.ahead.take 1).reverse ++ s.spaced.cursor.behind := rfl
  rw [hbehind, hcs]
  rfl

theorem pastComma_behindComma (h : s.spaced.cursor.next? = some ',') :
    Text.PastComma s.cursor.text s.cursor.offset s.behindComma.spaced.cursor.offset := by
  obtain ⟨hcomma, hoffset⟩ := Cursor.commaAt_offset h
  have htext : s.spaced.cursor.text = s.cursor.text := s.moves_spaced.cursor.text
  have htext' : s.behindComma.cursor.text = s.cursor.text := s.moves_behindComma.cursor.text
  refine ⟨s.spaced.cursor.offset, s.cursor.pastSpace_dropSpace, htext ▸ hcomma, ?_⟩
  rw [← hoffset, ← htext']
  exact s.behindComma.cursor.pastSpace_dropSpace

end Session

namespace Grammar

open Session

variable {g : Grammar} {kind : String} {p : Production} {options : Options} {s s' s₁ : Session}
  {ids : List NodeId} {id : NodeId} {e : Failure}

/-! ## Rounds -/

/-- How a round of a comma-separated list ends, and in which session. -/
inductive CommaStep (g : Grammar) (kind : String) (p : Production) (options : Options)
    (s : Session) : Outcome Session Round → Prop
  /-- It cannot be told whether there is an element. -/
  | unclear {e : Failure} : g.seesStart p options s.spaced = .error e →
    CommaStep g kind p options s (.error e, s.spaced)
  | missing : g.seesStart p options s.spaced = .ok false →
    CommaStep g kind p options s
      (.error (s.spaced.cursor.unexpected s!"expected: {kind}"), s.spaced)
  | failed {e : Failure} {s' : Session} : g.seesStart p options s.spaced = .ok true →
    s.spaced.parse g kind options = (.error e, s') →
    CommaStep g kind p options s (.error e, s')
  /-- There is no comma behind an element. -/
  | last {id : NodeId} {after : Session} : g.seesStart p options s.spaced = .ok true →
    s.spaced.parse g kind options = (.ok id, after) → after.spaced.cursor.next? ≠ some ',' →
    CommaStep g kind p options s (.ok (.last id), after.spaced)
  | element {id : NodeId} {after : Session} : g.seesStart p options s.spaced = .ok true →
    s.spaced.parse g kind options = (.ok id, after) → after.spaced.cursor.next? = some ',' →
    CommaStep g kind p options s (.ok (.next id), after.behindComma)

section
variable (hp : g.find kind = .ok p)
include hp

theorem commaRound_step (options : Options) (s : Session) :
    g.CommaStep kind p options s (g.commaRound (some (handle g)) p options s) := by
  unfold commaRound
  simp only
  rcases hsees : g.seesStart p options s.spaced with e | _ | _
  · exact .unclear hsees
  · simp only [name_eq_of_find hp]
    exact .missing hsees
  · rcases hparse : p.parse (some (handle g)) options s.spaced with ⟨e | id, after⟩ <;>
      rw [← handle_parse hp] at hparse
    · exact .failed hsees hparse
    · simp only [Cursor.take?_comma]
      by_cases hcomma : after.spaced.cursor.next? = some ','
      · have hnext : after.cursor.dropSpace.next? = some ',' := hcomma
        simp only [if_pos hnext]
        exact .element hsees hparse hcomma
      · have hnext : ¬after.cursor.dropSpace.next? = some ',' := hcomma
        simp only [if_neg hnext]
        exact .last hsees hparse hcomma

theorem CommaStep.eq {o : Outcome Session Round} (h : g.CommaStep kind p options s o) :
    g.commaRound (some (handle g)) p options s = o := by
  unfold commaRound
  simp only
  cases h with
  | unclear hsees => rw [hsees]
  | missing hsees =>
    rw [hsees]
    simp only [name_eq_of_find hp]
  | failed hsees hparse =>
    rw [handle_parse hp] at hparse
    rw [hsees]
    simp only [hparse]
  | @last id after hsees hparse hcomma =>
    have hnext : ¬after.cursor.dropSpace.next? = some ',' := hcomma
    rw [handle_parse hp] at hparse
    rw [hsees]
    simp only [hparse, Cursor.take?_comma, if_neg hnext]
  | @element id after hsees hparse hcomma =>
    have hnext : after.cursor.dropSpace.next? = some ',' := hcomma
    rw [handle_parse hp] at hparse
    rw [hsees]
    simp only [hparse, Cursor.take?_comma, if_pos hnext]
    rfl

/-- A round that goes on has found an element and a comma behind it. -/
theorem commaRound_element
    (h : g.commaRound (some (handle g)) p options s = (.ok (.next id), s')) :
    ∃ after, g.seesStart p options s.spaced = .ok true ∧
      s.spaced.parse g kind options = (.ok id, after) ∧ after.spaced.cursor.next? = some ',' ∧
      s' = after.behindComma := by
  cases h ▸ g.commaRound_step hp options s with
  | element hsees hparse hcomma => exact ⟨_, hsees, hparse, hcomma, rfl⟩

/-- A list ends with an element that has no comma behind it. -/
theorem commaRound_ends (h : Ends (g.commaRound (some (handle g)) p options) s (.ok ids, s')) :
    ∃ before id s₁ after, ids = before ++ [id] ∧
      Goes (g.commaRound (some (handle g)) p options) s before s₁ ∧
      g.seesStart p options s₁.spaced = .ok true ∧
      s₁.spaced.parse g kind options = (.ok id, after) ∧ after.spaced.cursor.next? ≠ some ',' ∧
      s' = after.spaced := by
  cases h with
  | @stop _ s₁ _ _ hstop => cases hstop ▸ g.commaRound_step hp options s₁
  | @last before id s₁ _ hgoes hlast =>
    cases hlast ▸ g.commaRound_step hp options s₁ with
    | last hsees hparse hcomma => exact ⟨_, _, s₁, _, rfl, hgoes, hsees, hparse, hcomma, rfl⟩

theorem handle_commaList (options : Options) (s : Session) :
    s.handle g (.commaList kind options) =
      collectAll (g.commaRound (some (handle g)) p options) s := by
  rw [handle_eq]
  simp only [answer, commaList, hp]
  rfl

theorem findsNodes_commaRound {x : Round}
    (h : g.commaRound (some (handle g)) p options s = (.ok x, s')) (ht : g.Reaches s.tree) :
    g.FindsNodes s.tree x.found s'.tree :=
  commaRound_found (.ofTree fun t ids t' => g.Reaches t → g.FindsNodes t ids t')
    (findsNodes_of_parse hp) h ht

/-! ## Elements -/

/-- What is found on the way has a comma behind it, and the next round begins there. -/
theorem exists_listed (h : g.Reaches s.tree)
    (hgoes : Goes (g.commaRound (some (handle g)) p options) s ids s') :
    ∃ path : Nat → Session, path 0 = s ∧ path ids.length = s' ∧ ∀ j id, ids[j]? = some id →
      ∃ after, g.Element kind p options s'.tree (path j).spaced id after ∧
        after.Moves (path (j + 1)) ∧
        Text.PastComma s.cursor.text after.cursor.offset (path (j + 1)).spaced.cursor.offset := by
  obtain ⟨path, hfirst, hlast, hpath⟩ := exists_path_of_goes (findsNodes_commaRound hp)
    (stays_commaRound g.stays_inner p options) hgoes h
  refine ⟨path, hfirst, hlast, fun j id hj => ?_⟩
  obtain ⟨hround, htext, hreaches, hsettles⟩ := hpath j id hj
  obtain ⟨after, hsees, hparse, hcomma, hnext⟩ := commaRound_element hp hround
  rw [hnext] at hsettles ⊢
  have htext' : after.cursor.text = s.cursor.text := (stays_of_parse hparse).text.trans htext
  exact ⟨after, Reaches.element (s := (path j).spaced) hreaches hsees hparse hsettles,
    after.moves_behindComma, htext' ▸ after.pastComma_behindComma hcomma⟩

/-- One more element ends what is found, and there the list ends, behind the space. -/
theorem exists_listed_last (h : g.Reaches s.tree)
    (hgoes : Goes (g.commaRound (some (handle g)) p options) s ids s₁)
    (hsees : g.seesStart p options s₁.spaced = .ok true)
    (hparse : s₁.spaced.parse g kind options = (.ok id, s')) :
    ∃ path : Nat → Session, path 0 = s ∧ ∀ j c, (ids ++ [id])[j]? = some c →
      ∃ after, g.Element kind p options s'.tree (path j).spaced c after ∧
        (j + 1 < (ids ++ [id]).length → after.Moves (path (j + 1)) ∧
          Text.PastComma s.cursor.text after.cursor.offset
            (path (j + 1)).spaced.cursor.offset) ∧
        (j + 1 = (ids ++ [id]).length → after.Moves s'.spaced ∧
          Text.PastSpace s.cursor.text after.cursor.offset s'.spaced.cursor.offset) := by
  obtain ⟨path, hfirst, hlast, hpath⟩ := exists_listed hp h hgoes
  have hreaches := (findsNodes_of_goes (findsNodes_commaRound hp) hgoes h).reaches
  obtain ⟨hfinds, -⟩ := Reaches.findsNodes_parse (s := s₁.spaced) hreaches hparse
  have hlength : (ids ++ [id]).length = ids.length + 1 := List.length_append
  refine ⟨path, hfirst, fun j c hj => ?_⟩
  rcases Nat.lt_or_ge j ids.length with hlt | hge
  · rw [List.getElem?_append_left hlt] at hj
    obtain ⟨after, helement, hmoves, hcomma⟩ := hpath j c hj
    exact ⟨after, helement.settles hfinds.settles, fun _ => ⟨hmoves, hcomma⟩, by omega⟩
  · -- The last element stands where the last round begins, which does not go on.
    rw [List.getElem?_append_right hge, List.getElem?_singleton] at hj
    split at hj
    next hzero =>
      obtain rfl : j = ids.length := by omega
      cases hj
      have htext : s'.cursor.text = s.cursor.text := (stays_of_parse hparse).text.trans
        (hgoes.stays (stays_commaRound g.stays_inner p options)).text
      rw [hlast]
      exact ⟨s', Reaches.element (s := s₁.spaced) hreaches hsees hparse (.refl _), by omega,
        fun _ => ⟨s'.moves_spaced, htext ▸ s'.cursor.pastSpace_dropSpace⟩⟩
    next => cases hj

/-- Elements that never move back use up the commas ahead. -/
theorem goes_commaList_forward (h : g.Reaches s.tree) (hforward : g.Forward kind options)
    (hgoes : Goes (g.commaRound (some (handle g)) p options) s ids s') :
    ids.length + s'.cursor.ahead.count ',' ≤ s.cursor.ahead.count ',' := by
  refine hgoes.length_add_le (P := fun s => g.Reaches s.tree)
    (fun s => s.cursor.ahead.count ',') (fun {s id s'} ht hround => ?_) h
  refine ⟨(findsNodes_commaRound hp hround ht).reaches, ?_⟩
  obtain ⟨after, -, hparse, hcomma, rfl⟩ := commaRound_element hp hround
  have hspaced : s.cursor.offset ≤ s.spaced.cursor.offset := s.cursor.offset_le_dropSpace
  have helement : s.spaced.cursor.offset ≤ after.cursor.offset := hforward ht hparse
  have hpassed : after.cursor.offset ≤ after.spaced.cursor.offset :=
    after.cursor.offset_le_dropSpace
  have htext : after.spaced.cursor.text = s.cursor.text :=
    after.moves_spaced.cursor.text.trans (stays_of_parse hparse).text
  have hsuffix := Cursor.ahead_suffix htext (by omega)
  rw [← after.behindComma_cut hcomma] at hsuffix
  have hle := hsuffix.sublist.count_le ','
  rwa [List.count_cons_self] at hle

theorem commaList_ends (h : g.Reaches s.tree) (hforward : g.Forward kind options) :
    Ends (g.commaRound (some (handle g)) p options) s
      (s.handle g (.commaList kind options)) := by
  rw [handle_commaList hp]
  refine (repeats_collectAll _ s).ends ?_
  rintro ⟨ids, s', hgoes, hlength⟩
  have hle := goes_commaList_forward hp h hforward hgoes
  have := List.count_le_length (a := ',') (l := s.cursor.ahead)
  omega

/-- Every round but the first begins behind a comma. -/
theorem goes_commaList_cases (hgoes : Goes (g.commaRound (some (handle g)) p options) s ids s') :
    ids = [] ∧ s' = s ∨ s'.cursor.behind.head? = some ',' := by
  induction hgoes with
  | here => exact .inl ⟨rfl, rfl⟩
  | next hround _ ih =>
    obtain ⟨after, -, -, hcomma, rfl⟩ := commaRound_element hp hround
    rcases ih with ⟨-, rfl⟩ | hbehind
    · exact .inr (after.head?_behindComma hcomma)
    · exact .inr hbehind

end

/-- **Comma-separated lists.** A list is what its rounds come to, unless it has been given up. Where
it succeeds there is an element, and each has a larger number than those before it. The first begins
at the first place without space, every other where the space behind the comma ends that follows the
one before it after space; each is recognized there. The list ends behind the space that follows the
last element, in front of anything but a comma. An element that is missing, at first or behind a
comma, is expected at the first place without space. If elements never come back in front of where
they began, then the list is not given up, and it has at most one more of them than there are
commas. -/
theorem Reaches.commaList_contract (h : g.Reaches s.tree) (hp : g.find kind = .ok p)
    (options : Options) :
    let round := g.commaRound (some (handle g)) p options
    Repeats round s (s.handle g (.commaList kind options)) ∧
    (∀ ids s', Ends round s (.ok ids, s') →
      ids ≠ [] ∧ ids.Pairwise (·.index < ·.index) ∧
      (∃ path : Nat → Session, path 0 = s ∧
        Text.PastSpace s.cursor.text s.cursor.offset (path 0).spaced.cursor.offset ∧
        ∀ j id, ids[j]? = some id →
          ∃ after, g.Element kind p options s'.tree (path j).spaced id after ∧
            (j + 1 < ids.length → after.Moves (path (j + 1)) ∧
              Text.PastComma s.cursor.text after.cursor.offset
                (path (j + 1)).spaced.cursor.offset) ∧
            (j + 1 = ids.length → after.Moves s' ∧
              Text.PastSpace s.cursor.text after.cursor.offset s'.cursor.offset)) ∧
      s'.cursor.next? ≠ some ',') ∧
    (∀ ids s₁, Goes round s ids s₁ → g.seesStart p options s₁.spaced = .ok false →
      (ids = [] ∧ s₁ = s ∨ s₁.cursor.behind.head? = some ',') ∧
      Text.PastSpace s.cursor.text s₁.cursor.offset s₁.spaced.cursor.offset ∧
      ∃ d, Ends round s (.error (.unexpected d), s₁.spaced) ∧ d.message = s!"expected: {kind}" ∧
        d.position = s₁.spaced.cursor.position) ∧
    (g.Forward kind options → Ends round s (s.handle g (.commaList kind options)) ∧
      ∀ ids s', Ends round s (.ok ids, s') → ids.length ≤ 1 + s.cursor.ahead.count ',') := by
  intro round
  refine ⟨?_, fun ids s' hends => ?_, fun ids s₁ hgoes hsees => ?_, fun hforward => ?_⟩
  · rw [handle_commaList hp]
    exact repeats_collectAll round s
  · obtain ⟨before, id, s₁, after, rfl, hgoes, hsees, hparse, hcomma, rfl⟩ :=
      commaRound_ends hp hends
    obtain ⟨path, hfirst, hpath⟩ := exists_listed_last hp h hgoes hsees hparse
    exact ⟨by simp, (findsNodes_of_ends (findsNodes_commaRound hp) hends h).increasing,
      ⟨path, hfirst, hfirst ▸ s.cursor.pastSpace_dropSpace, hpath⟩, hcomma⟩
  · have htext := (hgoes.stays (stays_commaRound g.stays_inner p options)).text
    exact ⟨goes_commaList_cases hp hgoes, htext ▸ s₁.cursor.pastSpace_dropSpace, _,
      .fail hgoes (CommaStep.eq hp (.missing hsees)), rfl, rfl⟩
  · refine ⟨commaList_ends hp h hforward, fun ids s' hends => ?_⟩
    obtain ⟨before, id, s₁, after, rfl, hgoes, -⟩ := commaRound_ends hp hends
    have := goes_commaList_forward hp h hforward hgoes
    rw [List.length_append, List.length_singleton]
    omega

/-- Numbers do not take the space around a comma, but a list of them does. -/
theorem Reaches.commaList_contract_numbers :
    let s := Session.ofText " 1 ,\n2 ;3" Phrase.grammar
    let round := Phrase.grammar.commaRound (some (handle Phrase.grammar)) Phrase.number none
    let o : Outcome Session (List NodeId) := s.handle Phrase.grammar (.commaList "Number" none)
    o.1 = .ok [⟨0⟩, ⟨1⟩] ∧ Ends round s o ∧ o.2.cursor.offset = 7 ∧
      (∃ path : Nat → Session, ∃ after,
        Phrase.grammar.Element "Number" Phrase.number none o.2.tree (path 0).spaced ⟨0⟩ after ∧
        Text.PastComma s.cursor.text after.cursor.offset (path 1).spaced.cursor.offset) ∧
      2 ≤ 1 + s.cursor.ahead.count ',' := by
  intro s round o
  have hp : Phrase.grammar.find "Number" = .ok Phrase.number := rfl
  have hanswer : o.1 = .ok [⟨0⟩, ⟨1⟩] := by decide +kernel
  have hoffset : o.2.cursor.offset = 7 := by decide +kernel
  obtain ⟨-, hends, -, hforward⟩ := Reaches.commaList_contract (s := s) .empty hp none
  obtain ⟨hend, hcount⟩ : Ends round s o ∧ _ :=
    hforward fun s' id s'' _ => offset_le_of_local Phrase.locals
  clear_value o
  obtain ⟨_, s'⟩ := o
  obtain rfl := hanswer
  obtain ⟨-, -, ⟨path, -, -, hpath⟩, -⟩ := hends _ s' hend
  obtain ⟨after, helement, hcomma, -⟩ := hpath 0 ⟨0⟩ rfl
  exact ⟨rfl, hend, hoffset, ⟨path, after, helement, (hcomma (by decide)).2⟩, hcount _ s' hend⟩

end Grammar
end Descent
