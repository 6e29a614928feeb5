import Descent.Proofs.Session.Reading

/-!
# Productions that stand for each other

* `Grammar.Same`: productions that can stand for each other over a grammar.

A grammar in which productions stand for others answers every request as the grammar with those does
(`handler_of_same`).
-/

namespace Descent

namespace Grammar

open Session

variable {g g' : Grammar}

/-- Productions that can stand for each other over a grammar. -/
structure Same (g : Grammar) (p p' : Production) : Prop where
  name : p'.name = p.name
  starts : ∀ options s, g.seesStart p' options s = g.seesStart p options s
  body : ∀ levels options s,
    (p'.body options).run (g.handler levels) s = (p.body options).run (g.handler levels) s
  write : p'.write = p.write

theorem Same.refl (g : Grammar) (p : Production) : g.Same p p :=
  ⟨rfl, fun _ _ => rfl, fun _ _ _ => rfl, rfl⟩

theorem Same.parse_eq {p p' : Production} (h : g.Same p p') (levels : Nat) (options : Options)
    (s : Session) :
    p'.parse (inner g levels) options s = p.parse (inner g levels) options s := by
  cases levels with
  | zero => rfl
  | succ levels => simp only [Production.parse, Session.inner, h.body, h.name]

section
variable (hsees : g'.sees = g.sees)
  (hfind : ∀ kind, Option.Rel g.Same (g.find? kind) (g'.find? kind))
include hfind

theorem write_of_same : g'.write = g.write := by
  funext t id options
  induction hn : id.index using Nat.strongRecOn generalizing id options with
  | ind n ih =>
  subst hn
  rw [write, write]
  cases t.node? id with
  | none => rfl
  | some node =>
    have hsame := hfind node.kind
    simp only
    generalize g.find? node.kind = o, g'.find? node.kind = o' at hsame ⊢
    cases hsame with
    | none => rfl
    | some h =>
      simp only [h.write]
      congr 1
      funext child options
      split
      next hlt => exact ih _ hlt child options rfl
      next => rfl

include hsees

omit hfind in
theorem Same.seesStart_eq {p p' : Production} (h : g.Same p p') (options : Options) (s : Session) :
    g'.seesStart p' options s = g.seesStart p options s := by
  rw [← h.starts, seesStart, seesStart, hsees]

omit hfind in
theorem Same.seriesRound_eq {p p' : Production} (h : g.Same p p') (levels : Nat)
    (options : Options) :
    g'.seriesRound (inner g levels) p' options = g.seriesRound (inner g levels) p options := by
  funext s
  simp only [seriesRound, h.seesStart_eq hsees, h.parse_eq, h.name]

omit hfind in
theorem Same.commaRound_eq {p p' : Production} (h : g.Same p p') (levels : Nat)
    (options : Options) :
    g'.commaRound (inner g levels) p' options = g.commaRound (inner g levels) p options := by
  funext s
  simp only [commaRound, h.seesStart_eq hsees, h.parse_eq, h.name]

theorem answer_of_same (levels : Nat) : g'.answer (inner g levels) = g.answer (inner g levels) := by
  funext r s
  cases r with
  | act | rewind | insert | copy | state => rfl
  | sees q options => simp only [answer, hsees]
  | write id options => simp only [answer, write_of_same hfind]
  | parse kind options =>
    have hsame := hfind kind
    simp only [answer, parse, find]
    generalize g.find? kind = o, g'.find? kind = o' at hsame ⊢
    cases hsame with
    | none => rfl
    | some h => exact h.parse_eq levels options s
  | series kind options =>
    have hsame := hfind kind
    simp only [answer, series, find]
    generalize g.find? kind = o, g'.find? kind = o' at hsame ⊢
    cases hsame with
    | none => rfl
    | some h => exact congrFun (congrArg collectAll (h.seriesRound_eq hsees levels options)) s
  | commaList kind options =>
    have hsame := hfind kind
    simp only [answer, commaList, find]
    generalize g.find? kind = o, g'.find? kind = o' at hsame ⊢
    cases hsame with
    | none => rfl
    | some h => exact congrFun (congrArg collectAll (h.commaRound_eq hsees levels options)) s

/-- A grammar whose productions can stand for those of another does as the other. -/
theorem handler_of_same (levels : Nat) : g'.handler levels = g.handler levels := by
  induction levels with
  | zero => exact answer_of_same hsees hfind 0
  | succ levels ih =>
    have hanswer := answer_of_same hsees hfind (levels + 1)
    funext r s
    rw [handler, handler, ih]
    exact congrFun (congrFun hanswer r) s

end
end Grammar
end Descent
