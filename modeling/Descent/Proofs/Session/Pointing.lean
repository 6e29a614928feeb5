import Descent.Proofs.Program.Grammars
import Descent.Proofs.Session.Faults

/-!
# Failures point at the cursor

* `Failure.PointsAt`: a failure that names the place of a cursor, or none;
* `Handler.Points`: a handler whose failures name the place where they leave the cursor.

A failure is made where the cursor is, and nothing moves the cursor afterwards: a local program
passes a failure on, and so do a parse and a repetition. The failures of a grammar and of a tree
name no place.
-/

namespace Descent

variable {e : Failure} {c c' : Cursor}

/-- The place that a failure names, if it names one, is that of a cursor. -/
def Failure.PointsAt (e : Failure) (c : Cursor) : Prop :=
  ∀ d, e.diagnostic? = some d → d.position = c.position

theorem Failure.PointsAt.plain (h : e.PointsAt c) (hc : c'.plain = c.plain) : e.PointsAt c' :=
  fun d hd => (h d hd).trans (congrArg (fun p => p.cursor.position) hc.symm)

theorem Failure.PointsAt.badArgument (message : String) (c : Cursor) :
    (Failure.badArgument message).PointsAt c := nofun

theorem Failure.PointsAt.badState (message : String) (c : Cursor) :
    (Failure.badState message).PointsAt c := nofun

theorem Cursor.unexpected_pointsAt (c : Cursor) (message : String) :
    (c.unexpected message).PointsAt c := by
  rintro _ ⟨⟩
  rfl

theorem Session.tooDeep_pointsAt (s : Session) : s.tooDeep.PointsAt s.cursor := by
  rintro _ ⟨⟩
  rfl

theorem Cursor.Refuses.pointsAt {a : Cursor.Action} (h : c.Refuses a e) : e.PointsAt c := by
  cases h with
  | unexpected message => exact c.unexpected_pointsAt message
  | badArgument message => exact .badArgument message c
  | noMark message => exact .badState message c

theorem Tree.Denies.pointsAt (h : Tree.Denies e) (c : Cursor) : e.PointsAt c := by
  cases h <;> nofun

theorem Grammar.Obscures.pointsAt (h : Grammar.Obscures e) (c : Cursor) : e.PointsAt c := by
  cases h <;> nofun

/-! ## Requests -/

/-- Whatever a handler refuses, the failure points at the cursor of the session after it. -/
def Handler.Points (handle : Handler) : Prop :=
  ∀ ⦃r s e s'⦄, handle r s = (.error e, s') → e.PointsAt s'.cursor

namespace Grammar

open Session (collect_error rewind_error)

variable {g : Grammar} {inner : Option Handler} {p : Production} {options : Options}
  {s s' : Session} {kind : String}

theorem pointsAt_collect {round : Session → Outcome Session Session.Round}
    (hround : ∀ {s e s'}, round s = (.error e, s') → e.PointsAt s'.cursor)
    (h : Session.collectAll round s = (.error e, s')) : e.PointsAt s'.cursor := by
  rcases collect_error h with rfl | ⟨s₁, -, hs₁⟩
  · exact .badState _ _
  · exact hround hs₁

section
variable (hg : ∀ p ∈ g.productions, p.Local) (hinner : ∀ handle ∈ inner, Handler.Points handle)
include hg hinner

theorem pointsAt_parse (hp : p ∈ g.productions)
    (h : p.parse inner options s = (.error e, s')) : e.PointsAt s'.cursor := by
  rcases p.parse_error h with ⟨-, rfl, rfl⟩ | ⟨handle, after, -, hhandle, rfl, hrun | hdenies⟩
  · exact s'.tooDeep_pointsAt
  · obtain ⟨ids, r, r', A, s₁, -, hs₁⟩ := ((hg p hp).body 0 options).exists_refused hrun
    have hafter : e.PointsAt after.cursor := hinner handle hhandle hs₁
    exact hafter
  · exact hdenies.pointsAt _

theorem pointsAt_seriesRound (hp : p ∈ g.productions)
    (h : g.seriesRound inner p options s = (.error e, s')) : e.PointsAt s'.cursor := by
  rcases seriesRound_error h with ⟨hsees, rfl⟩ | ⟨-, hparse | ⟨id, -, -, rfl⟩⟩
  · exact (seesStart_error hg hp hsees).pointsAt _
  · exact pointsAt_parse hg hinner hp hparse
  · exact .badState _ _

theorem pointsAt_commaRound (hp : p ∈ g.productions)
    (h : g.commaRound inner p options s = (.error e, s')) : e.PointsAt s'.cursor := by
  rcases commaRound_error h with ⟨rfl, hsees | rfl⟩ | ⟨-, hparse⟩
  · exact (seesStart_error hg hp hsees).pointsAt _
  · exact s.spaced.cursor.unexpected_pointsAt _
  · exact pointsAt_parse hg hinner hp hparse

theorem points_answer : Handler.Points (g.answer inner) := by
  intro r s e s' h
  cases r with
  | act a =>
    obtain ⟨hanswer, rfl⟩ := Prod.mk.inj h
    obtain ⟨hplain, hrefuses⟩ := Cursor.perform_error (Prod.ext hanswer rfl)
    exact hrefuses.pointsAt.plain hplain
  | sees q options => exact (seesWithin_error hg (congrArg Prod.fst h)).pointsAt _
  | parse kind options =>
    rcases parse_error h with ⟨message, rfl⟩ | ⟨p, hp, hparse⟩
    · exact .badArgument message _
    · exact pointsAt_parse hg hinner (mem_of_find hp) hparse
  | series kind options =>
    rcases series_error h with ⟨message, rfl⟩ | ⟨p, hp, hcollect⟩
    · exact .badArgument message _
    · exact pointsAt_collect (pointsAt_seriesRound hg hinner (mem_of_find hp)) hcollect
  | commaList kind options =>
    rcases commaList_error h with ⟨message, rfl⟩ | ⟨p, hp, hcollect⟩
    · exact .badArgument message _
    · exact pointsAt_collect (pointsAt_commaRound hg hinner (mem_of_find hp)) hcollect
  | rewind id =>
    rcases rewind_error (congrArg Prod.fst h) with ⟨message, rfl⟩ | ⟨kind, rfl⟩
    · exact .badArgument _ _
    · exact .badState _ _
  | insert kind fields =>
    obtain ⟨hanswer, -⟩ := Prod.mk.inj h
    exact (Tree.insert_error hanswer).pointsAt _
  | copy id =>
    obtain ⟨hanswer, -⟩ := Prod.mk.inj h
    exact (Tree.copy_error hanswer).pointsAt _
  | write | state => cases h

end

theorem points_handler (hg : ∀ p ∈ g.productions, p.Local) (levels : Nat) :
    Handler.Points (g.handler levels) := by
  induction levels with
  | zero => exact points_answer hg nofun
  | succ levels ih =>
    refine points_answer hg ?_
    rintro _ ⟨⟩
    exact ih

/-- **Failures point at the cursor.** An action that fails leaves the cursor and its mark where they
were, and so does a pattern that may be there and is not. What such a failure says about a place is
said about that of the cursor. A parse, a series or a list over the grammar of scripts or that of
phrases that fails at a place leaves the cursor there. -/
theorem failures_point (hg : g = Script.grammar ∨ g = Phrase.grammar) :
    (∀ (c : Cursor) a e c', c.perform a = (.error e, c') →
      c'.offset = c.offset ∧ c'.mark = c.mark ∧
        ∀ d, e.diagnostic? = some d → d.position = c'.position) ∧
    (∀ (c : Cursor) q c', c.take? q = (.ok none, c') →
      c'.offset = c.offset ∧ c'.mark = c.mark) ∧
    ∀ (s : Session) kind options,
      ∀ r ∈ [Request.parse kind options, .series kind options, .commaList kind options],
        ∀ e s', s.handle g r = (.error e, s') → ∀ d, e.diagnostic? = some d →
          s'.cursor.offset = d.position.offset ∧ s'.cursor.position = d.position := by
  refine ⟨fun c a e c' h => ?_, fun c q c' h => ?_, fun s kind options r _ e s' h d hd => ?_⟩
  · obtain ⟨hplain, hrefuses⟩ := Cursor.perform_error h
    exact ⟨Cursor.offset_of_plain hplain, congrArg Cursor.Plain.mark hplain,
      hrefuses.pointsAt.plain hplain⟩
  · obtain rfl := Cursor.take?_none h
    exact ⟨rfl, rfl⟩
  · have hposition : d.position = s'.cursor.position := points_handler (locals hg) _ h d hd
    rw [hposition]
    exact ⟨rfl, rfl⟩

/-- A word behind space that is not the expected one, and a bad escape in a call in a binding. -/
theorem failures_point_escape :
    let c := ((Cursor.ofText "a  let b").takeChars 1).2.setMark
    let s := Session.ofText "let a =\n f(1, \"é\\q\");" Script.grammar
    (∃ e c' d, c.takeThisWord (some "if") = (.error e, c') ∧ e.diagnostic? = some d ∧
      d.position = ⟨1, 1, 1⟩ ∧ c'.position = ⟨1, 1, 1⟩ ∧ c'.mark = some ⟨1⟩) ∧
    ∃ e s' d, s.parse Script.grammar "Script" none = (.error e, s') ∧
      e.diagnostic? = some d ∧ d.position = ⟨2, 9, 17⟩ ∧ s'.cursor.position = ⟨2, 9, 17⟩ := by
  intro c s
  obtain ⟨hactions, -, hrequests⟩ := failures_point (.inl rfl)
  constructor
  · have hplace : (c.takeThisWord (some "if")).1.mapError (·.diagnostic?.map (·.position)) =
        .error (some ⟨1, 1, 1⟩) := by decide +kernel
    rcases htake : c.takeThisWord (some "if") with ⟨e | word, c'⟩ <;> rw [htake] at hplace
    · obtain ⟨d, hd, hposition⟩ := Option.map_eq_some_iff.1 (Except.error.inj hplace)
      obtain ⟨-, hmark, hpoints⟩ := hactions c (.takeThisWord (some "if")) e c' htake
      exact ⟨e, c', d, rfl, hd, hposition, hpoints d hd ▸ hposition, hmark⟩
    · cases hplace
  · have hplace : (s.parse Script.grammar "Script" none).1.mapError
        (·.diagnostic?.map (·.position)) = .error (some ⟨2, 9, 17⟩) := by decide +kernel
    rcases hparse : s.parse Script.grammar "Script" none with ⟨e | id, s'⟩ <;>
      rw [hparse] at hplace
    · obtain ⟨d, hd, hposition⟩ := Option.map_eq_some_iff.1 (Except.error.inj hplace)
      obtain ⟨-, hpoints⟩ := hrequests s "Script" none _ (.head _) e s' hparse d hd
      exact ⟨e, s', d, rfl, hd, hposition, hpoints.trans hposition⟩
    · cases hplace

end Grammar
end Descent
