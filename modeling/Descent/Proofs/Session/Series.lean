import Descent.Proofs.Session.Rounds

/-!
# Series

* `Grammar.SeriesStep`: the ways in which a round of a series ends.

A round looks for an element behind any space, and gives the space back if there is none. So the
sessions between the rounds are those in which the elements come back, and a series ends in the last
of them (`exists_elements`). What elements never do that move back is to use up the limit of a
session (`goes_series_forward`).
-/

namespace Descent
namespace Grammar

open Session

variable {g : Grammar} {kind : String} {p : Production} {options : Options} {s s' s₁ : Session}
  {ids : List NodeId} {id : NodeId} {e : Failure}

/-! ## Rounds -/

/-- How a round of a series ends, and in which session. -/
inductive SeriesStep (g : Grammar) (kind : String) (p : Production) (options : Options)
    (s : Session) : Outcome Session Round → Prop
  /-- It cannot be told whether there is an element. -/
  | unclear {e : Failure} : g.seesStart p options s.spaced = .error e →
    SeriesStep g kind p options s (.error e, s.spaced)
  /-- There is no element, and the session is as it was. -/
  | absent : g.seesStart p options s.spaced = .ok false →
    SeriesStep g kind p options s (.ok .stop, s)
  | failed {e : Failure} {s' : Session} : g.seesStart p options s.spaced = .ok true →
    s.spaced.parse g kind options = (.error e, s') →
    SeriesStep g kind p options s (.error e, s')
  /-- An element ends where it began. -/
  | idle {id : NodeId} {s' : Session} : g.seesStart p options s.spaced = .ok true →
    s.spaced.parse g kind options = (.ok id, s') → s'.cursor.offset = s.spaced.cursor.offset →
    SeriesStep g kind p options s
      (.error (.badState s!"{kind} matched without consuming input inside a chain"), s')
  | element {id : NodeId} {s' : Session} : g.seesStart p options s.spaced = .ok true →
    s.spaced.parse g kind options = (.ok id, s') → s'.cursor.offset ≠ s.spaced.cursor.offset →
    SeriesStep g kind p options s (.ok (.next id), s')

/-- The space is given back. -/
theorem moveTo_spaced (s : Session) :
    { s.spaced with cursor := s.spaced.cursor.moveTo s.cursor.offset } = s :=
  congrArg (fun c => ({ s with cursor := c } : Session)) s.cursor.moveTo_dropSpace

section
variable (hp : g.find kind = .ok p)
include hp

theorem seriesRound_step (options : Options) (s : Session) :
    g.SeriesStep kind p options s (g.seriesRound (some (handle g)) p options s) := by
  unfold seriesRound
  simp only
  rcases hsees : g.seesStart p options s.spaced with e | _ | _
  · exact .unclear hsees
  · rw [moveTo_spaced]
    exact .absent hsees
  · rcases hparse : p.parse (some (handle g)) options s.spaced with ⟨e | id, after⟩ <;>
      rw [← handle_parse hp] at hparse
    · exact .failed hsees hparse
    · simp only
      split
      next heq =>
        rw [name_eq_of_find hp]
        exact .idle hsees hparse heq
      next hne => exact .element hsees hparse hne

theorem SeriesStep.eq {o : Outcome Session Round} (h : g.SeriesStep kind p options s o) :
    g.seriesRound (some (handle g)) p options s = o := by
  unfold seriesRound
  simp only
  cases h with
  | unclear hsees => rw [hsees]
  | absent hsees =>
    rw [hsees]
    exact congrArg _ (moveTo_spaced s)
  | failed hsees hparse =>
    rw [handle_parse hp] at hparse
    rw [hsees]
    simp only [hparse]
  | idle hsees hparse heq =>
    rw [handle_parse hp] at hparse
    rw [hsees]
    simp only [hparse, if_pos heq, name_eq_of_find hp]
  | element hsees hparse hne =>
    rw [handle_parse hp] at hparse
    rw [hsees]
    simp only [hparse, if_neg hne]

theorem handle_series (options : Options) (s : Session) :
    s.handle g (.series kind options) =
      collectAll (g.seriesRound (some (handle g)) p options) s := by
  rw [handle_eq]
  simp only [answer, series, hp]
  rfl

theorem findsNodes_seriesRound {x : Round}
    (h : g.seriesRound (some (handle g)) p options s = (.ok x, s')) (ht : g.Reaches s.tree) :
    g.FindsNodes s.tree x.found s'.tree :=
  seriesRound_found (.ofTree fun t ids t' => g.Reaches t → g.FindsNodes t ids t')
    (findsNodes_of_parse hp)
    (fun _ => .nil) h ht

/-! ## Elements -/

/-- What is found on the way is found where the element before it came back. -/
theorem exists_elements (h : g.Reaches s.tree)
    (hgoes : Goes (g.seriesRound (some (handle g)) p options) s ids s') :
    ∃ path : Nat → Session, path 0 = s ∧ path ids.length = s' ∧ ∀ j id, ids[j]? = some id →
      Text.PastSpace s.cursor.text (path j).cursor.offset (path j).spaced.cursor.offset ∧
      g.Element kind p options s'.tree (path j).spaced id (path (j + 1)) ∧
      (path (j + 1)).cursor.offset ≠ (path j).spaced.cursor.offset := by
  obtain ⟨path, hfirst, hlast, hpath⟩ := exists_path_of_goes (findsNodes_seriesRound hp)
    (stays_seriesRound g.stays_inner p options) hgoes h
  refine ⟨path, hfirst, hlast, fun j id hj => ?_⟩
  obtain ⟨hround, htext, hreaches, hsettles⟩ := hpath j id hj
  cases hround ▸ g.seriesRound_step hp options (path j) with
  | element hsees hparse hne =>
    exact ⟨htext ▸ (path j).cursor.pastSpace_dropSpace,
      Reaches.element (s := (path j).spaced) hreaches hsees hparse hsettles, hne⟩

/-- Elements that never move back use up what is ahead. -/
theorem goes_series_forward (h : g.Reaches s.tree) (hforward : g.Forward kind options)
    (hgoes : Goes (g.seriesRound (some (handle g)) p options) s ids s') :
    ids.length + s'.cursor.ahead.length ≤ s.cursor.ahead.length := by
  refine hgoes.length_add_le (P := fun s => g.Reaches s.tree)
    (fun s => s.cursor.ahead.length) (fun {s id s'} ht hround => ?_) h
  have hfinds := findsNodes_seriesRound hp hround ht
  have htext : s'.cursor.text = s.cursor.text := by
    rw [← (stays_seriesRound g.stays_inner p options s).text, hround]
  refine ⟨hfinds.reaches, Cursor.length_ahead_lt htext ?_⟩
  cases hround ▸ g.seriesRound_step hp options s with
  | element _ hparse hne =>
    have hle : s.spaced.cursor.offset ≤ s'.cursor.offset := hforward ht hparse
    have hspaced : s.cursor.offset ≤ s.spaced.cursor.offset := s.cursor.offset_le_dropSpace
    omega

theorem series_ends (h : g.Reaches s.tree) (hforward : g.Forward kind options) :
    Ends (g.seriesRound (some (handle g)) p options) s (s.handle g (.series kind options)) := by
  rw [handle_series hp]
  refine (repeats_collectAll _ s).ends ?_
  rintro ⟨ids, s', hgoes, hlength⟩
  have := goes_series_forward hp h hforward hgoes
  omega

/-- A series that stops does so where its last element came back, and no element is behind the space
there. -/
theorem series_stops
    (hends : Ends (g.seriesRound (some (handle g)) p options) s (.ok ids, s')) :
    Goes (g.seriesRound (some (handle g)) p options) s ids s' ∧
      g.seesStart p options s'.spaced = .ok false := by
  cases hends with
  | @stop _ s₁ _ hgoes hstop =>
    cases hstop ▸ g.seriesRound_step hp options s₁ with
    | absent hsees => exact ⟨hgoes, hsees⟩
  | @last _ _ s₁ _ _ hlast => cases hlast ▸ g.seriesRound_step hp options s₁

/-- The failure of a series is passed up unless an element came back where it began. -/
theorem series_fails :
    (Ends (g.seriesRound (some (handle g)) p options) s (.error e, s') ∧
      ¬g.PassesUp kind p options (g.seriesRound (some (handle g)) p options) s e s') ↔
    e = .badState s!"{kind} matched without consuming input inside a chain" ∧
      ∃ ids s₁ id, Goes (g.seriesRound (some (handle g)) p options) s ids s₁ ∧
        g.seesStart p options s₁.spaced = .ok true ∧
        s₁.spaced.parse g kind options = (.ok id, s') ∧
        s'.cursor.offset = s₁.spaced.cursor.offset := by
  constructor
  · rintro ⟨hends, hown⟩
    cases hends with
    | @fail ids _ s₁ _ hgoes hfail =>
    cases hfail ▸ g.seriesRound_step hp options s₁ with
    | unclear hsees => exact absurd ⟨ids, s₁, hgoes, .inl ⟨hsees, rfl⟩⟩ hown
    | failed hsees hparse => exact absurd ⟨ids, s₁, hgoes, .inr ⟨hsees, hparse⟩⟩ hown
    | @idle id _ hsees hparse heq => exact ⟨rfl, ids, s₁, id, hgoes, hsees, hparse, heq⟩
  · rintro ⟨rfl, ids, s₁, id, hgoes, hsees, hparse, heq⟩
    have hidle := SeriesStep.eq hp (.idle hsees hparse heq)
    refine ⟨.fail hgoes hidle, ?_⟩
    rintro ⟨ids', s₂, hgoes', hfail⟩
    -- Only one round can fail, so what is passed up would be a failure of this one.
    have hend {e : Failure} {s' : Session}
        (h : g.seriesRound (some (handle g)) p options s₂ = (.error e, s')) : s₁ = s₂ := by
      refine (hgoes.unique hgoes' (fun _ _ hnext => ?_) (fun _ _ hnext => ?_)).2
      · cases hidle.symm.trans hnext
      · cases h.symm.trans hnext
    rcases hfail with ⟨hsees', -⟩ | ⟨hsees', hparse'⟩
    · obtain rfl := hend (SeriesStep.eq hp (.unclear hsees'))
      cases hsees.symm.trans hsees'
    · obtain rfl := hend (SeriesStep.eq hp (.failed hsees' hparse'))
      cases hparse.symm.trans hparse'

end

/-- **Series.** A series is what its rounds come to, unless it has been given up. Where it succeeds,
each element has a larger number than those before it, and begins at the first place without space
from where the one before it came back; it is recognized there, and comes back elsewhere. The series
ends where the last element came back, and behind the space there is none. A series has a failure of
its own exactly if an element comes back where it began. If elements never come back in front of
where they began, then the series is not given up, and has no more of them than there are bytes. -/
theorem Reaches.series_contract (h : g.Reaches s.tree) (hp : g.find kind = .ok p)
    (options : Options) :
    let round := g.seriesRound (some (handle g)) p options
    Repeats round s (s.handle g (.series kind options)) ∧
    (∀ ids s', Ends round s (.ok ids, s') →
      ids.Pairwise (·.index < ·.index) ∧
      (∃ path : Nat → Session, path 0 = s ∧ path ids.length = s' ∧ ∀ j id, ids[j]? = some id →
        Text.PastSpace s.cursor.text (path j).cursor.offset (path j).spaced.cursor.offset ∧
        g.Element kind p options s'.tree (path j).spaced id (path (j + 1)) ∧
        (path (j + 1)).cursor.offset ≠ (path j).spaced.cursor.offset) ∧
      Text.PastSpace s.cursor.text s'.cursor.offset s'.spaced.cursor.offset ∧
      g.seesStart p options s'.spaced = .ok false) ∧
    (∀ e s', (Ends round s (.error e, s') ∧ ¬g.PassesUp kind p options round s e s') ↔
      e = .badState s!"{kind} matched without consuming input inside a chain" ∧
        ∃ ids s₁ id, Goes round s ids s₁ ∧ g.seesStart p options s₁.spaced = .ok true ∧
          s₁.spaced.parse g kind options = (.ok id, s') ∧
          s'.cursor.offset = s₁.spaced.cursor.offset) ∧
    (g.Forward kind options → Ends round s (s.handle g (.series kind options)) ∧
      ∀ ids s', Ends round s (.ok ids, s') → ids.length ≤ Text.size s.cursor.ahead) := by
  intro round
  refine ⟨?_, fun ids s' hends => ?_, fun e s' => series_fails hp, fun hforward => ?_⟩
  · rw [handle_series hp]
    exact repeats_collectAll round s
  · obtain ⟨hgoes, hsees⟩ := series_stops hp hends
    have htext := (hgoes.stays (stays_seriesRound g.stays_inner p options)).text
    have hfinds := findsNodes_of_goes (findsNodes_seriesRound hp) hgoes h
    exact ⟨hfinds.increasing, exists_elements hp h hgoes,
      htext ▸ s'.cursor.pastSpace_dropSpace, hsees⟩
  · refine ⟨series_ends hp h hforward, fun ids s' hends => ?_⟩
    have hle := goes_series_forward hp h hforward (series_stops hp hends).1
    have := Text.length_le_size s.cursor.ahead
    omega

/-- Numbers do not take the space behind them, and neither does a series of them. -/
theorem Reaches.series_contract_numbers :
    let s := Session.ofText "1 2\n 3  ;" Phrase.grammar
    let round := Phrase.grammar.seriesRound (some (handle Phrase.grammar)) Phrase.number none
    let o : Outcome Session (List NodeId) := s.handle Phrase.grammar (.series "Number" none)
    o.1 = .ok [⟨0⟩, ⟨1⟩, ⟨2⟩] ∧ Ends round s o ∧ o.2.cursor.offset = 6 ∧
      Text.PastSpace s.cursor.text 6 8 ∧
      Phrase.grammar.seesStart Phrase.number none o.2.spaced = .ok false := by
  intro s round o
  have hp : Phrase.grammar.find "Number" = .ok Phrase.number := rfl
  have hanswer : o.1 = .ok [⟨0⟩, ⟨1⟩, ⟨2⟩] := by decide +kernel
  have hoffset : o.2.cursor.offset = 6 := by decide +kernel
  have hspaced : o.2.spaced.cursor.offset = 8 := by decide +kernel
  obtain ⟨-, hends, -, hforward⟩ := Reaches.series_contract (s := s) .empty hp none
  have hend : Ends round s o :=
    (hforward fun s' id s'' _ => offset_le_of_local Phrase.locals).1
  -- What follows is about any outcome like this one, so nothing has to be evaluated.
  clear_value o
  obtain ⟨_, s'⟩ := o
  obtain rfl := hanswer
  obtain ⟨-, -, hpast, hsees⟩ := hends _ s' hend
  rw [hoffset, hspaced] at hpast
  exact ⟨rfl, hend, hoffset, hpast, hsees⟩

end Grammar
end Descent
