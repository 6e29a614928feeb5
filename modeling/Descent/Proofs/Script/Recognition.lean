import Descent.Proofs.Script.Completeness
import Descent.Proofs.Script.Parsing

/-!
# Recognition of scripts

* `Recognizes`: an outcome is a success exactly on the scripts that need no more than some levels,
  and the node of a success shows the syntax tree.
-/

namespace Descent.Script

variable {l : List Char} {bs bs' : List Binding}

/-- What is read with enough levels is what the text is the text of. -/
theorem readScript_iff {levels : Nat} :
    readScript levels l = some (bs, []) ↔ IsScript l bs ∧ need bs ≤ levels + 1 :=
  ⟨fun h => (sound_script h).2, fun h => complete_script h.1 h.2⟩

/-- A text has one syntax tree at most. -/
theorem IsScript.unique (h : IsScript l bs) (h' : IsScript l bs') : bs = bs' := by
  have hread := complete_script h (Nat.le_succ_of_le (Nat.le_max_left (need bs) (need bs')))
  have hread' := complete_script h' (Nat.le_succ_of_le (Nat.le_max_right (need bs) (need bs')))
  exact congrArg Prod.fst (Option.some.inj (hread.symm.trans hread'))

/-- An outcome of parsing a text as a script with some levels is the right one. -/
structure Recognizes (text : String) (levels : Nat) (outcome : Outcome Session NodeId) : Prop where
  succeeds_iff : (∃ id s, outcome = (.ok id, s)) ↔
    ∃ bs, IsScript text.toList bs ∧ need bs ≤ levels
  json_eq : ∀ {id s bs}, outcome = (.ok id, s) → IsScript text.toList bs →
    s.tree.json id = scriptJson bs

theorem recognizes_withSettings {text : String} {settings : Settings} {s : Session}
    (h : Session.withSettings text grammar settings = .ok s) (options : Options) :
    Recognizes text settings.maxDepth (s.parse grammar "Script" options) := by
  obtain ⟨levels, hlevels⟩ := Nat.exists_eq_succ_of_ne_zero (Session.withSettings_ok h).1.ne'
  have hparses : Session.Parses grammar settings.maxDepth "Script" options _ _ _ :=
    parses_script settings.maxDepth
  have hagrees := hparses.agrees_parse h
  rw [hlevels] at hagrees ⊢
  change Agrees _ (readScript levels text.toList) _ at hagrees
  cases hread : readScript levels text.toList with
  | none =>
    rw [hread] at hagrees
    obtain ⟨e, s', hparse⟩ := hagrees
    rw [hparse]
    refine ⟨⟨nofun, ?_⟩, nofun⟩
    rintro ⟨bs, hbs⟩
    rw [readScript_iff.2 hbs] at hread
    cases hread
  | some result =>
    obtain ⟨bs, rest⟩ := result
    rw [hread] at hagrees
    obtain ⟨id, s', hparse, hparsed⟩ := hagrees
    obtain ⟨rfl, hbs, hneed⟩ := sound_script hread
    rw [hparse]
    refine ⟨⟨fun _ => ⟨bs, hbs, hneed⟩, fun _ => ⟨id, s', rfl⟩⟩, ?_⟩
    rintro _ _ bs' ⟨⟩ hbs'
    rw [hparsed.shows.json_eq, hbs.unique hbs']

/-- **Recognition.** From a new session, a text parses as a script exactly if it is one and needs no
more levels than there are, and then the node shows its syntax tree. -/
theorem parse_recognizes (text : String) :
    (∀ settings s options, Session.withSettings text grammar settings = .ok s →
      Recognizes text settings.maxDepth (s.parse grammar "Script" options)) ∧
    Recognizes text 1000 (parse text) := by
  refine ⟨fun _ _ options h => recognizes_withSettings h options, ?_⟩
  have hdefault : Session.withSettings text grammar {} = .ok (.ofText text grammar) := rfl
  exact recognizes_withSettings hdefault none

/-- A binding of a call, whose keyword is in capitals, needs six levels. -/
theorem parse_recognizes_call :
    let bs : List Binding := [⟨"a", .call "f" [.name "b"]⟩]
    need bs = 6 ∧ ∃ s, Session.withSettings "LET a = f(b);" grammar ⟨9, 6⟩ = .ok s ∧
      ∃ id s', s.parse grammar "Script" none = (.ok id, s') ∧ s'.tree.json id = scriptJson bs := by
  intro bs
  have hname (c : Char) (hc : startsName c) : IsName [c] := .cons hc nofun
  have hcall : IsCall "f(b)".toList "f" [.name "b"] :=
    .mk (w := []) (hname 'f' rfl) nofun
      (.some (w := []) (l := ['b']) nofun (.name (hname 'b' rfl)) (.close (w := []) nofun))
  have hspace : Blank [' '] := by
    rintro _ (_ | ⟨_, ⟨⟩⟩)
    rfl
  have hbinding : IsBinding (['L', 'E', 'T'] ++ [' '] ++ ['a'] ++ [' '] ++ '=' :: [' '] ++
      "f(b)".toList ++ [] ++ [';']) ⟨"a", .call "f" [.name "b"]⟩ :=
    .mk rfl hspace nofun (hname 'a' rfl) hspace hspace (.call hcall) nofun
  have hscript : IsScript "LET a = f(b);".toList bs :=
    .cons (w := []) (r := []) nofun hbinding (.nil nofun)
  have hneed : need bs = 6 := rfl
  have hrecognizes := (parse_recognizes "LET a = f(b);").1 ⟨9, 6⟩ _ none rfl
  obtain ⟨id, s', hparse⟩ := hrecognizes.succeeds_iff.2 ⟨bs, hscript, Nat.le_of_eq hneed⟩
  exact ⟨hneed, _, rfl, id, s', hparse, hrecognizes.json_eq hparse hscript⟩

end Descent.Script
