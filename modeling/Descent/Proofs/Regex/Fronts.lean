import Descent.Pattern

/-!
# Runs of a known automaton

When what can be done in some states is the same at every place, a run is a recursion over the text
that needs no exploration (`run_cons_of_fronts`). A bound automaton only matches at the front of its
text, so the extent of its match is the run from its start (`extent?_eq_run`).
-/

namespace Descent

/-! ## Sets of characters -/

namespace CharSet

@[simp] theorem holds_range (low high c : Char) :
    (range low high).holds c = (decide (low.toNat ≤ c.toNat) && decide (c.toNat ≤ high.toNat)) := by
  simp [holds, range, within]

@[simp] theorem holds_single (a c : Char) : (single a).holds c = decide (c = a) := by
  rw [Bool.eq_iff_iff]
  simp only [single, holds_range, Bool.and_eq_true, decide_eq_true_eq, ← Char.toNat_inj]
  omega

end CharSet

namespace Automaton

variable {a : Automaton} {states : List Nat} {before : Option Char} {front : Front}

/-- What can be done in some states, whatever character comes next. -/
def Fronts (a : Automaton) (states : List Nat) (before : Option Char) (front : Front) : Prop :=
  ∀ after, a.front ⟨before, after⟩ states = front

/-- The states after reading a character. -/
def next (reads : List (CharSet × Nat)) (c : Char) : List Nat :=
  reads.filterMap fun (set, next) => if set.holds c then some next else none

@[simp] theorem next_nil (c : Char) : next [] c = [] := rfl

@[simp] theorem next_cons (set : CharSet) (s : Nat) (reads : List (CharSet × Nat)) (c : Char) :
    next ((set, s) :: reads) c = if set.holds c then s :: next reads c else next reads c := by
  cases h : set.holds c <;> simp [next, h]

theorem run_nil_of_fronts (h : a.Fronts states before front) :
    a.run states before [] = if front.accepts then some 0 else none := by
  rw [run, h none]

theorem run_cons_of_fronts (h : a.Fronts states before front) (c : Char) (cs : List Char) :
    a.run states before (c :: cs) =
      match if (next front.reads c).isEmpty then none
          else a.run (next front.reads c) (some c) cs with
      | some n => some (n + 1)
      | none => if front.accepts then some 0 else none := by
  rw [run]
  simp only [h (some c)]
  rfl

theorem run_le_length {n : Nat} {cs : List Char} (h : a.run states before cs = some n) :
    n ≤ cs.length := by
  induction cs generalizing states before n with
  | nil =>
    rw [run] at h
    split at h <;> cases h
    exact Nat.le_refl _
  | cons c cs ih =>
    rw [run] at h
    split at h
    next m hm =>
      cases h
      split at hm
      · cases hm
      · exact Nat.succ_le_succ (ih hm)
    next =>
      split at h <;> cases h
      exact Nat.zero_le _

/-- In a state that loops on a set and accepts, a run reads as much of the set as there is. -/
theorem run_loop {set : CharSet} {s : Nat}
    (h : ∀ before, a.Fronts [s] before ⟨[(set, s)], true⟩) (before : Option Char)
    (cs : List Char) : a.run [s] before cs = some (cs.takeWhile set.holds).length := by
  induction cs generalizing before with
  | nil => rw [run_nil_of_fronts (h before)]; rfl
  | cons c cs ih =>
    rw [run_cons_of_fronts (h before)]
    cases hc : set.holds c <;> simp [hc, ih]

/-- A state that reads one character of a set before it goes to another. -/
theorem run_read {set : CharSet} {s : Nat} {accepts : Bool}
    (h : a.Fronts states before ⟨[(set, s)], accepts⟩) (cs : List Char) :
    a.run states before cs =
      match cs with
      | [] => if accepts then some 0 else none
      | c :: cs =>
        match if set.holds c then a.run [s] (some c) cs else none with
        | some n => some (n + 1)
        | none => if accepts then some 0 else none := by
  cases cs with
  | nil => exact run_nil_of_fronts h
  | cons c cs =>
    rw [run_cons_of_fronts h]
    cases hc : set.holds c <;> simp [hc]

theorem findFrom_eq_none (h : ∀ c, a.Fronts [a.start] (some c) ⟨[], false⟩) (c : Char)
    (cs : List Char) : a.findFrom (some c) cs = none := by
  induction cs generalizing c with
  | nil =>
    unfold findFrom
    rw [run_nil_of_fronts (h c)]
    rfl
  | cons d cs ih =>
    unfold findFrom
    rw [run_cons_of_fronts (h c)]
    simp [ih]

end Automaton

/-- A bound automaton is one that can do nothing behind the start of a text. -/
theorem BoundRegex.extent?_eq_run {b : BoundRegex}
    (h : ∀ c, b.regex.automaton.Fronts [b.regex.automaton.start] (some c) ⟨[], false⟩)
    (cs : List Char) :
    b.extent? cs = b.regex.automaton.run [b.regex.automaton.start] none cs := by
  unfold extent? Regex.find? Automaton.findFrom
  cases hr : b.regex.automaton.run [b.regex.automaton.start] none cs with
  | some n => simp [Match.stop, Nat.min_eq_left (Automaton.run_le_length hr)]
  | none =>
    cases cs with
    | nil => rfl
    | cons c cs => simp [Automaton.findFrom_eq_none h]

end Descent
