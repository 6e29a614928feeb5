import Descent.Proofs.Script.Completeness
import Descent.Proofs.Script.Parsing
import Descent.Proofs.Script.Printing
import Descent.Proofs.Session.RoundTrip

/-!
# Round trips of scripts

Every production of scripts comes back from the text of its node, in whatever way that is written,
with no more levels than it took the first time.
-/

namespace Descent.Script

open Session (roundTrips_of_restores)

/-! ## Every reader restores -/

theorem restores_name : readName.Restores (fun s _ => s) := by
  refine .intro sound_name complete_name nofun ?_
  rintro l _ ⟨hl, rfl⟩ -
  rw [String.toList_ofList]
  exact ⟨hl, rfl⟩

theorem restores_number : readNumber.Restores (fun value _ => numberText value) :=
  .intro sound_number complete_number ⟨nofun, nofun⟩ fun h _ => numeral_numberText h.2

theorem restores_text : readText.Restores textSource :=
  .intro sound_text complete_text trivial fun _ _ => isText_encode _ _

theorem restores_expr (levels : Nat) : (readExpr levels).Restores Expr.source :=
  .intro (sound_expr levels) (takes_expr levels) .nil fun h options => ⟨h.1.printed options, h.2⟩

theorem restores_call (levels : Nat) : (readCallAt levels).Restores
    (fun c options => callSource c.1 (c.2.map (·.source options))) := by
  cases levels with
  | zero => nofun
  | succ levels =>
    intro cs c rest h options
    obtain ⟨l, -, hl, hlevels, hheights⟩ := sound_call (sound_expr levels) h
    have hread := readCall_append (takes_expr levels) (shrinks_expr levels) hlevels
      (hl.printed options) hheights []
    rwa [List.append_nil, Expr.sources_eq_map] at hread

theorem restores_binding (levels : Nat) : (readBinding levels).Restores Binding.source := by
  intro cs b rest h options
  obtain ⟨_, -, ⟨_, _, -, hb, -⟩, hheight⟩ := sound_binding levels h
  have hread := complete_binding levels ⟨hb.printed options, hheight⟩ (r := []) trivial
  rwa [List.append_nil] at hread

theorem restores_script (levels : Nat) : (readScript levels).Restores scriptSource := by
  intro cs bs rest h options
  obtain ⟨-, hscript, hneed⟩ := sound_script h
  exact complete_script (hscript.printed options) hneed

/-! ## Productions -/

/-- **Round trip.** A node that a new session parses, of whichever production, comes back from how
it is written. -/
theorem roundTrips {text kind : String} {settings : Settings} {options : Options}
    {s s' : Session} {id : NodeId} (h : Session.withSettings text grammar settings = .ok s)
    (hparse : s.parse grammar kind options = (.ok id, s')) :
    Session.RoundTrips grammar settings kind s' id := by
  have hkind := Session.mem_kinds_of_parse hparse
  simp only [Grammar.kinds, grammar, List.map_cons, List.map_nil, List.mem_cons,
    List.not_mem_nil, or_false] at hkind
  rcases hkind with rfl | rfl | rfl | rfl | rfl | rfl | rfl
  · exact roundTrips_of_restores (fun _ => parses_name) (restores_name.deeper _) h hparse
  · exact roundTrips_of_restores (fun _ => parses_number) (restores_number.deeper _) h hparse
  · exact roundTrips_of_restores (fun _ => parses_text) (restores_text.deeper _) h hparse
  · exact roundTrips_of_restores (fun _ => parses_call _) (restores_call _) h hparse
  · exact roundTrips_of_restores (fun _ => parses_expr _) (restores_expr _) h hparse
  · exact roundTrips_of_restores (fun _ => parses_binding _) ((restores_binding _).deeper _) h
      hparse
  · exact roundTrips_of_restores (fun _ => parses_script _) ((restores_script _).deeper _) h
      hparse

/-- A call with an escape and a fraction. -/
theorem roundTrips_call :
    let s := Session.ofText "f( \"\\u\x7be9\x7d\" , -1.50 )" grammar
    ∃ id s', s.parse grammar "Call" none = (.ok id, s') ∧
      Session.RoundTrips grammar {} "Call" s' id := by
  intro s
  have hs : Session.withSettings "f( \"\\u\x7be9\x7d\" , -1.50 )" grammar {} = .ok s := rfl
  have hok : (s.parse grammar "Call" none).1.toOption.isSome := by decide +kernel
  rcases hparse : s.parse grammar "Call" none with ⟨_ | id, s'⟩
  · rw [hparse] at hok
    cases hok
  · exact ⟨id, s', rfl, roundTrips hs hparse⟩

end Descent.Script
