import Descent.Proofs.Session.Local

/-!
# Repetitions get further

* `Session.Advances`: a repetition whose rounds each begin further on than the one before;
* `Grammar.retreating`: a grammar whose one production moves the cursor back.

A round that goes on has got further unless its element moved the cursor back
(`seriesRound_next`, `commaRound_next`), so repetitions of elements that never do come to an end
(`repetitions_advance`); those of a local grammar never do (`offset_le_of_local`). An element that
does is taken for one that has got further, and can be repeated for ever (`repetitions_endless`).
-/

namespace Descent

namespace Text

theorem length_le_size (cs : List Char) : cs.length ≤ size cs := by
  induction cs with
  | nil => exact Nat.le_refl _
  | cons c cs ih =>
    have := c.utf8Size_pos
    rw [List.length_cons, size_cons]
    omega

end Text

/-! ## Cursors that move on -/

namespace Cursor

/-- A local action never moves back. -/
theorem offset_le_perform {a : Action} (ha : a.isLocal) (c : Cursor) :
    c.offset ≤ (c.perform a).2.offset := by
  obtain ⟨-, n, hmove, -⟩ := perform_local (Eq.refl c.ahead) ha
  rw [offset_of_plain hmove, offset_forward]
  exact Nat.le_add_right ..

theorem offset_le_dropSpace (c : Cursor) : c.offset ≤ c.dropSpace.offset := by
  rw [dropSpace, takeWhile, offset_forward]
  exact Nat.le_add_right ..

/-- Taking a literal moves on by its bytes. -/
theorem offset_take?_literal {c c' : Cursor} {s m : String}
    (h : c.take? (.literal s) = (.ok (some m), c')) :
    c'.offset = c.offset + Text.size s.toList := by
  unfold take? Pattern.extent? at h
  simp only at h
  split at h
  · cases h
  · cases h
  next n hn =>
    split at hn
    next hp =>
      cases hn
      cases h
      obtain ⟨r, hr⟩ := List.isPrefixOf_iff_prefix.1 hp
      rw [offset_forward, ← hr, List.take_left]
    next => cases hn

/-- A cursor further on in a text has fewer characters ahead. -/
theorem length_ahead_lt {c c' : Cursor} (htext : c'.text = c.text) (h : c.offset < c'.offset) :
    c'.ahead.length < c.ahead.length := by
  have hcut : c.behind.reverse ++ c.ahead = c'.behind.reverse ++ c'.ahead := htext.symm
  obtain ⟨m, hbehind, hahead⟩ := Text.append_eq_append_of_size_le hcut (by
    rw [Text.size_reverse, Text.size_reverse]
    exact Nat.le_of_lt h)
  have hm : m ≠ [] := by
    rintro rfl
    rw [List.append_nil, List.reverse_inj] at hbehind
    rw [offset, offset, hbehind] at h
    exact Nat.lt_irrefl _ h
  rw [hahead, List.length_append]
  have := List.length_pos_iff.2 hm
  omega

end Cursor

/-! ## Rounds -/

namespace Session

variable {round : Session → Outcome Session Round} {s s' : Session} {fuel fuel' : Nat}
  {found : List NodeId}

theorem Turns.mono (h : Turns round fuel s s') (hle : fuel ≤ fuel') : Turns round fuel' s s' := by
  induction h generalizing fuel' with
  | @first fuel s =>
    obtain ⟨n, rfl⟩ : ∃ n, fuel' = n + 1 := ⟨fuel' - 1, by omega⟩
    exact .first
  | later hround _ ih =>
    obtain ⟨n, rfl⟩ : ∃ n, fuel' = n + 1 := ⟨fuel' - 1, by omega⟩
    exact .later hround (ih (Nat.le_of_succ_le_succ hle))

section
variable (hstays : ∀ s : Session, s.Stays (round s).2)
  (hfurther : ∀ {s id s'}, round s = (.ok (.next id), s') → s.cursor.offset < s'.cursor.offset)
include hstays hfurther

private theorem length_ahead_of_next {id : NodeId} (h : round s = (.ok (.next id), s')) :
    s'.cursor.ahead.length < s.cursor.ahead.length := by
  have htext := (hstays s).text
  rw [h] at htext
  exact Cursor.length_ahead_lt htext (hfurther h)

/-- A round that begins at all is among as many as there are characters ahead, and one. -/
theorem Turns.bounded (h : Turns round fuel s s') :
    Turns round (s.cursor.ahead.length + 1) s s' := by
  induction h with
  | first => exact .first
  | later hround _ ih =>
    exact .later hround (ih.mono (length_ahead_of_next hstays hfurther hround))

/-- As many rounds as there are characters ahead, and one, are as good as any larger number. -/
theorem collect_eq_of_further (h : s.cursor.ahead.length < fuel)
    (h' : s.cursor.ahead.length < fuel') :
    collect round found fuel s = collect round found fuel' s := by
  induction fuel generalizing fuel' found s with
  | zero => exact absurd h (Nat.not_lt_zero _)
  | succ fuel ih =>
    obtain ⟨n, rfl⟩ : ∃ n, fuel' = n + 1 := ⟨fuel' - 1, by omega⟩
    rw [collect, collect]
    rcases hr : round s with ⟨e | _ | id | id, after⟩
    · rfl
    · rfl
    · rfl
    · have hlt := length_ahead_of_next hstays hfurther hr
      exact ih (by omega) (by omega)

end

/-- A round that goes on from every session it comes to uses up whatever rounds it has. -/
theorem collect_endless {P : Session → Prop}
    {round : Session → Outcome Session Round}
    (h : ∀ s, P s → ∃ id s', round s = (.ok (.next id), s') ∧ P s') {s : Session} (hs : P s)
    (found : List NodeId) (fuel : Nat) :
    (collect round found fuel s).1 = .error (.badState "a repetition does not end") := by
  induction fuel generalizing found s with
  | zero => rfl
  | succ fuel ih =>
    obtain ⟨id, s', hround, hs'⟩ := h s hs
    rw [collect, hround]
    exact ih hs' _

/-- Every round of a repetition that goes on ends further on than it began. So no round begins
after as many as there are bytes ahead, and one, and a greater limit makes no difference. -/
structure Advances (round : Session → Outcome Session Round) (s : Session) : Prop where
  further : ∀ {s₁ id s₂}, round s₁ = (.ok (.next id), s₂) → s₁.cursor.offset < s₂.cursor.offset
  turns : ∀ {fuel s'}, Turns round fuel s s' →
    Turns round (Text.size s.cursor.ahead + 1) s s'
  collect_eq : ∀ fuel, Text.size s.cursor.ahead < fuel →
    collect round [] fuel s = collectAll round s

theorem advances_of_further (hstays : ∀ s : Session, s.Stays (round s).2)
    (hfurther : ∀ {s id s'}, round s = (.ok (.next id), s') →
      s.cursor.offset < s'.cursor.offset) (s : Session) : Advances round s := by
  have hle := Text.length_le_size s.cursor.ahead
  refine ⟨hfurther, fun h => (h.bounded hstays hfurther).mono (by omega), fun fuel h => ?_⟩
  exact collect_eq_of_further hstays hfurther (by omega) (by omega)

end Session

namespace Grammar

open Session

variable {g : Grammar} {p : Production} {inner : Option Handler} {options : Options}
  {s s' : Session} {id : NodeId} {kind : String}

/-- A round of a series that goes on ends where its element does, and that is not where it began. -/
theorem seriesRound_next (h : g.seriesRound inner p options s = (.ok (.next id), s')) :
    p.parse inner options s.spaced = (.ok id, s') ∧
      s'.cursor.offset ≠ s.spaced.cursor.offset := by
  unfold seriesRound at h
  simp only at h
  rcases hsees : g.seesStart p options s.spaced with e | _ | _ <;> rw [hsees] at h
  · cases h
  · cases h
  · rcases hparse : p.parse inner options s.spaced with ⟨e | id', after⟩ <;> rw [hparse] at h
    · cases h
    · simp only at h
      split at h
      · cases h
      next hne =>
        cases h
        exact ⟨rfl, hne⟩

/-- A round of a list that goes on ends behind a comma, and that is behind its element. -/
theorem commaRound_next (h : g.commaRound inner p options s = (.ok (.next id), s')) :
    ∃ after, p.parse inner options s.spaced = (.ok id, after) ∧
      after.cursor.offset < s'.cursor.offset := by
  unfold commaRound at h
  simp only at h
  rcases hsees : g.seesStart p options s.spaced with e | _ | _ <;> rw [hsees] at h
  · cases h
  · cases h
  · rcases hparse : p.parse inner options s.spaced with ⟨e | id', after⟩ <;> rw [hparse] at h
    · cases h
    · simp only at h
      rcases ht : after.cursor.dropSpace.take? (.literal ",") with ⟨e | _ | m, c⟩ <;>
        rw [ht] at h <;> cases h
      have hspace := after.cursor.offset_le_dropSpace
      have hcomma : c.offset = after.cursor.dropSpace.offset + 1 := Cursor.offset_take?_literal ht
      exact ⟨after, rfl, by simp only; omega⟩

theorem handle_parse (hp : g.find kind = .ok p) (options : Options) (s : Session) :
    s.parse g kind options = p.parse (some (handle g)) options s := by
  rw [Session.parse, handle_eq]
  simp only [answer, Grammar.parse, hp]

/-- An element of a local grammar ends no earlier than it begins. -/
theorem offset_le_of_local (hg : ∀ p ∈ g.productions, p.Local)
    (h : s.parse g kind options = (.ok id, s')) : s.cursor.offset ≤ s'.cursor.offset := by
  have halike : Alike (fun id => [id]) s s (s.parse g kind options) (s.parse g kind options) :=
    alike_of_local hg rfl rfl rfl (fun d => .parse kind options) (by
      rintro d id _ new ⟨rfl, -⟩
      rfl)
  obtain ⟨passed, rest, ⟨hbehind, -⟩, -⟩ := halike.cursor
  rw [h] at hbehind
  rw [Cursor.offset, Cursor.offset, hbehind, Text.size_append]
  exact Nat.le_add_left ..

/-- **Repetitions get further.** If no parse of a production ends before where it began, then every
round of a series or of a comma-separated list of it begins further on in the text than the one
before, and there are at most as many as there are bytes ahead, and one. -/
theorem repetitions_advance (hp : g.find kind = .ok p)
    (hforward : ∀ {s s' : Session} {id}, s.parse g kind options = (.ok id, s') →
      s.cursor.offset ≤ s'.cursor.offset) (s : Session) :
    (s.handle g (.series kind options) =
        collectAll (g.seriesRound (some (handle g)) p options) s ∧
      Advances (g.seriesRound (some (handle g)) p options) s) ∧
    (s.handle g (.commaList kind options) =
        collectAll (g.commaRound (some (handle g)) p options) s ∧
      Advances (g.commaRound (some (handle g)) p options) s) := by
  have hspaced (s : Session) : s.cursor.offset ≤ s.spaced.cursor.offset :=
    s.cursor.offset_le_dropSpace
  have helement {s : Session} {id after}
      (h : p.parse (some (handle g)) options s.spaced = (.ok id, after)) :
      s.spaced.cursor.offset ≤ after.cursor.offset :=
    hforward ((handle_parse hp options s.spaced).trans h)
  refine ⟨⟨?_, advances_of_further (stays_seriesRound g.stays_inner p options) ?_ s⟩,
    ?_, advances_of_further (stays_commaRound g.stays_inner p options) ?_ s⟩
  · rw [handle_eq]
    simp only [answer, series, hp]
    rfl
  · intro s id s' h
    obtain ⟨hparse, hne⟩ := seriesRound_next h
    have hle := helement hparse
    have := hspaced s
    omega
  · rw [handle_eq]
    simp only [answer, commaList, hp]
    rfl
  · intro s id s' h
    obtain ⟨after, hparse, hlt⟩ := commaRound_next h
    have hle := helement hparse
    have := hspaced s
    omega

/-- The arguments of a call: an expression is local, though it goes back over its name. -/
theorem repetitions_advance_arguments :
    let s := Session.ofText "a, f(b) , \"\"" Script.grammar
    Script.grammar.find "Expression" = .ok Script.expression ∧
      Advances (Script.grammar.commaRound (some (handle Script.grammar)) Script.expression none) s ∧
      (s.handle Script.grammar (.commaList "Expression" none)).2.cursor.atEnd ∧
      (s.handle Script.grammar (.commaList "Expression" none)).2.tree.size = 10 := by
  intro s
  have hp : Script.grammar.find "Expression" = .ok Script.expression := rfl
  exact ⟨hp, (repetitions_advance hp (offset_le_of_local Script.locals) s).2.2, by decide +kernel,
    by decide +kernel⟩

/-! ## Elements that move back -/

/-- A production that goes back to the start of the text from wherever a mark is. -/
def retreat (mark : String) : Production where
  name := "Retreat"
  starts sees _ options := sees (.literal mark) options
  body _ := do
    Program.act (.goTo 0)
    return .empty
  write _ _ _ := ""

def retreating (mark : String) : Grammar := ⟨[retreat mark], by simp⟩

theorem run_retreat (mark : String) (options : Options) (s : Session) :
    ((retreat mark).body options).run (handle g) s =
      (.ok .empty, { s with cursor := s.cursor.place [] s.cursor.text rfl }) := by
  have hgo : s.cursor.goTo 0 = (.ok (), s.cursor.place [] s.cursor.text rfl) :=
    Cursor.goTo_size (l := []) rfl
  have hact : s.handle g (.act (.goTo 0)) =
      (.ok (), { s with cursor := s.cursor.place [] s.cursor.text rfl }) := by
    rw [handle_eq]
    simp only [answer, act, Cursor.perform, hgo]
    rfl
  simp only [retreat, Program.act, Program.request, bind, Program.bind, Program.run, hact]
  rfl

/-- Where a parse may begin at all it ends at the start of the text. -/
theorem parse_retreat (mark : String) (options : Options)
    (h : s.depth < s.cursor.settings.maxDepth) :
    ∃ id s', (retreat mark).parse (some (handle g)) options s = (.ok id, s') ∧
      s'.cursor.behind = [] ∧ s.Stays s' := by
  unfold Production.parse
  rw [if_neg (Nat.not_le_of_lt h)]
  simp only [run_retreat]
  exact ⟨_, _, rfl, rfl, rfl, rfl, rfl⟩

/-- The second round of this series begins before the first one. -/
theorem series_retreats :
    let g := retreating "b"
    let s := { Session.ofText "ab" g with cursor := (Cursor.ofText "ab").moveTo 1 }
    let round := g.seriesRound (some (handle g)) (retreat "b") none s
    round.1 = .ok (.next ⟨0⟩) ∧ s.cursor.offset = 1 ∧ round.2.cursor.offset = 0 ∧
      (s.handle g (.series "Retreat" none)).1 = .ok [⟨0⟩] := by
  intro g s round
  refine ⟨?_, ?_, ?_, ?_⟩
  · decide +kernel
  · decide +kernel
  · decide +kernel
  · show (g.series (some (handle g)) "Retreat" none s).1 = .ok [⟨0⟩]
    decide +kernel

/-- **Repetitions for ever.** The rounds of a production that goes back over a space and a comma run
out, however many there may be. -/
theorem repetitions_endless (fuel : Nat) :
    let g := retreating ""
    let s := Session.ofText " ," g
    (collect (g.seriesRound (some (handle g)) (retreat "") none) [] fuel s).1 =
        .error (.badState "a repetition does not end") ∧
      (collect (g.commaRound (some (handle g)) (retreat "") none) [] fuel s).1 =
        .error (.badState "a repetition does not end") := by
  intro g s
  have helement {s₁ : Session} (hs₁ : s.Stays s₁) :
      ∃ id s₂, (retreat "").parse (some (handle g)) none s₁.spaced = (.ok id, s₂) ∧
        s₂.cursor.behind = [] ∧ s₂.cursor.ahead = [' ', ','] ∧ s.Stays s₂ := by
    have hspaced := hs₁.trans s₁.stays_spaced
    have hroom : s₁.spaced.depth < s₁.spaced.cursor.settings.maxDepth := by
      rw [hspaced.depth, hspaced.settings]
      decide
    obtain ⟨id, s₂, hparse, hbehind, hs₂⟩ := parse_retreat "" none hroom
    have hs₂ := hspaced.trans hs₂
    have htext := hs₂.text
    rw [Cursor.text, hbehind] at htext
    exact ⟨id, s₂, hparse, hbehind, htext, hs₂⟩
  refine ⟨collect_endless (P := s.Stays) (fun s₁ hs₁ => ?_) (.refl s) [] fuel,
    collect_endless (P := s.Stays) (fun s₁ hs₁ => ?_) (.refl s) [] fuel⟩
  · obtain ⟨id, s₂, hparse, hbehind, -, hs₂⟩ := helement hs₁
    -- The element begins behind the space, so it ends elsewhere.
    have hne : s₂.cursor.offset ≠ s₁.spaced.cursor.offset := by
      intro heq
      rw [Cursor.offset, hbehind] at heq
      have hstart := Text.size_eq_zero.1 heq.symm
      have htext := (hs₁.trans s₁.stays_spaced).text
      have hahead : s₁.spaced.cursor.ahead = s₁.cursor.ahead.dropWhile Text.isSpace :=
        s₁.cursor.dropSpace_movesTo.ahead
      rw [Cursor.text, hstart, hahead] at htext
      have hhead := List.head?_dropWhile_not Text.isSpace s₁.cursor.ahead
      rw [show s₁.cursor.ahead.dropWhile Text.isSpace = [' ', ','] from htext] at hhead
      exact absurd hhead Bool.noConfusion
    refine ⟨id, s₂, ?_, hs₂⟩
    unfold seriesRound
    simp only
    rw [show g.seesStart (retreat "") none s₁.spaced = .ok true from rfl, hparse]
    exact if_neg hne
  · obtain ⟨id, s₂, hparse, -, hahead, hs₂⟩ := helement hs₁
    have hcomma : s₂.cursor.dropSpace.ahead = [','] := by
      rw [s₂.cursor.dropSpace_movesTo.ahead, hahead]
      decide
    have htake : s₂.cursor.dropSpace.take? (.literal ",") =
        (.ok (some ","), s₂.cursor.dropSpace.forward 1) := by
      unfold Cursor.take?
      rw [hcomma]
      rfl
    have hmoved : s₂.Stays { s₂ with cursor := s₂.cursor.dropSpace.forward 1 } :=
      (s₂.stays_act .dropSpace).trans (Session.stays_act s₂.spaced (.takeChars 1))
    refine ⟨id, _, ?_, hs₂.trans hmoved⟩
    unfold commaRound
    simp only
    rw [show g.seesStart (retreat "") none s₁.spaced = .ok true from rfl, hparse]
    simp only [htake]

end Grammar
end Descent
