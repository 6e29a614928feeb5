import Descent.Decimal.Basic
import Mathlib.Algebra.Order.Ring.Nat
import Mathlib.Data.Nat.Log
import Mathlib.Tactic.Ring

/-!
# Rounding to binary64 numbers

* `Decimal.rounded?`: the number nearest to a decimal one, with no case apart.

Rounding depends on the value of a quotient alone, and leaves a representable number as it is. So
the binary64 number of a decimal one stays the same when zeros move between the digits and the
exponent.
-/

namespace Descent

namespace Binary64

variable {n d k : Nat}

-- The exponents are variables below, so that the powers are never computed.

theorem unitsPerOne_eq {b : Nat} (hb : b = 1074) : unitsPerOne = 2 ^ b := by
  unfold unitsPerOne
  rw [← hb, Nat.pow_eq]

theorem limit_eq {b : Nat} (hb : b = 2098) : limit = 2 ^ b := by
  unfold limit
  rw [← hb, Nat.pow_eq]

/-! ## Quotients -/

theorem roundDiv_mul_right (n d : Nat) (hk : 0 < k) : roundDiv (n * k) (d * k) = roundDiv n d := by
  have hdiv : n * k / (d * k) = n / d := Nat.mul_div_mul_right n d hk
  have htwice : 2 * (n * k % (d * k)) = 2 * (n % d) * k := by
    rw [Nat.mul_mod_mul_right, Nat.mul_assoc]
  have hlt : d * k < 2 * (n % d) * k ↔ d < 2 * (n % d) := Nat.mul_lt_mul_right hk
  have heq : 2 * (n % d) * k = d * k ↔ 2 * (n % d) = d := Nat.mul_left_inj hk.ne'
  simp only [roundDiv, hdiv, htwice, gt_iff_lt, hlt, Bool.beq_eq_decide_eq, heq]

theorem roundDiv_mul_self (n : Nat) (hd : 0 < d) : roundDiv (n * d) d = n := by
  simp [roundDiv, Nat.mul_div_cancel n hd, hd.ne]

theorem div_le_roundDiv (n d : Nat) : n / d ≤ roundDiv n d := by
  unfold roundDiv
  simp only
  split
  · exact Nat.le_succ _
  · exact Nat.le_refl _

/-! ## The nearest magnitude -/

theorem nearestUnits_mul_right (n d : Nat) (hk : 0 < k) :
    nearestUnits (n * k) (d * k) = nearestUnits n d := by
  unfold nearestUnits
  simp only [Nat.mul_div_mul_right n d hk]
  rw [Nat.mul_right_comm, roundDiv_mul_right _ _ hk]

theorem spacing_pos (n : Nat) : 0 < spacing n :=
  Nat.two_pow_pos _

theorem nearestUnits_mul_self (h : Representable n) (hd : 0 < d) : nearestUnits (n * d) d = n := by
  obtain ⟨m, hm⟩ := Nat.dvd_of_mod_eq_zero h.1
  unfold nearestUnits
  simp only [Nat.mul_div_cancel n hd]
  have hsplit : n * d = m * (d * spacing n) := by
    calc n * d = spacing n * m * d := by rw [← hm]
      _ = m * (d * spacing n) := by ring
  rw [hsplit, roundDiv_mul_self m (Nat.mul_pos hd (spacing_pos n)), Nat.mul_comm m]
  exact hm.symm

/-- What is less than half a unit is rounded to zero. -/
theorem nearestUnits_of_lt (h : 2 * n < d) : nearestUnits n d = 0 := by
  have hdiv : n / d = 0 := Nat.div_eq_of_lt (by omega)
  have hmod : n % d = n := Nat.mod_eq_of_lt (by omega)
  have hstep : spacing 0 = 1 := rfl
  simp [nearestUnits, roundDiv, hdiv, hmod, hstep, Nat.le_of_lt h]

/-- Rounding keeps the leading bit. -/
theorem le_nearestUnits (h : n / d ≠ 0) : 2 ^ (n / d).log2 ≤ nearestUnits n d := by
  unfold nearestUnits spacing
  simp only
  have hle : 2 ^ (n / d).log2 ≤ n / d := Nat.log2_self_le h
  generalize (n / d).log2 = b at *
  have hdvd : 2 ^ b = 2 ^ b / 2 ^ (b - 52) * 2 ^ (b - 52) :=
    (Nat.div_mul_cancel (Nat.pow_dvd_pow 2 (Nat.sub_le b 52))).symm
  calc 2 ^ b = 2 ^ b / 2 ^ (b - 52) * 2 ^ (b - 52) := hdvd
    _ ≤ n / d / 2 ^ (b - 52) * 2 ^ (b - 52) := Nat.mul_le_mul_right _ (Nat.div_le_div_right hle)
    _ = n / (d * 2 ^ (b - 52)) * 2 ^ (b - 52) := by rw [Nat.div_div_eq_div_mul]
    _ ≤ _ := Nat.mul_le_mul_right _ (div_le_roundDiv _ _)

/-! ## The nearest number -/

theorem nearest?_mul_right (negative : Bool) (n d : Nat) (hk : 0 < k) :
    nearest? negative (n * k) (d * k) = nearest? negative n d := by
  simp only [nearest?, nearestUnits_mul_right n d hk]

theorem nearest?_of_nearestUnits (x : Binary64) (h : nearestUnits n d = x.units) :
    nearest? x.negative n d = some x := by
  simp only [nearest?, h, dif_pos x.representable]

theorem nearest?_mul_self (x : Binary64) (hd : 0 < d) :
    nearest? x.negative (x.units * d) d = some x :=
  nearest?_of_nearestUnits x (nearestUnits_mul_self x.representable hd)

theorem nearest?_of_lt (negative : Bool) (h : 2 * n < d) :
    nearest? negative n d = some (.zero negative) :=
  nearest?_of_nearestUnits (.zero negative) (nearestUnits_of_lt h)

theorem nearest?_eq_none (negative : Bool) (h : limit ≤ n / d) : nearest? negative n d = none := by
  have hne : n / d ≠ 0 := (limit_pos.trans_le h).ne'
  have hunits := le_nearestUnits hne
  refine dif_neg fun hr => Nat.not_lt.2 (Nat.le_trans ?_ hunits) hr.2
  obtain ⟨b, hb⟩ : ∃ b, b = 2098 := ⟨_, rfl⟩
  rw [limit_eq hb] at h ⊢
  rw [← Nat.le_log2 hne] at h
  exact Nat.pow_le_pow_right Nat.two_pos h

end Binary64

namespace Decimal

open Binary64 (nearest? unitsPerOne)

/-- The number nearest to a decimal one. -/
def rounded? (d : Decimal) : Option Binary64 :=
  nearest? d.negative (d.digits * 10 ^ d.exponent.toNat * unitsPerOne) (10 ^ (-d.exponent).toNat)

/-- The shortcut for large exponents. -/
private theorem limit_le {n e : Nat} (hn : 0 < n) (he : 400 < e) :
    Binary64.limit ≤ n * 10 ^ e * unitsPerOne := by
  obtain ⟨⟨b, hb⟩, ⟨u, hu⟩⟩ : (∃ b, b = 2098) ∧ ∃ u, u = 1074 := ⟨⟨_, rfl⟩, ⟨_, rfl⟩⟩
  rw [Binary64.limit_eq hb, Binary64.unitsPerOne_eq hu]
  calc 2 ^ b ≤ 2 ^ (3 * e + u) := Nat.pow_le_pow_right Nat.two_pos (by omega)
    _ = (2 ^ 3) ^ e * 2 ^ u := by rw [Nat.pow_add, Nat.pow_mul]
    _ ≤ 10 ^ e * 2 ^ u := Nat.mul_le_mul_right _ (Nat.pow_le_pow_left (by decide) e)
    _ ≤ n * 10 ^ e * 2 ^ u := Nat.mul_le_mul_right _ (Nat.le_mul_of_pos_left _ hn)

/-- The shortcut for small ones. -/
private theorem lt_half_unit {n k : Nat} (hk : n.log2 + 1500 < k) :
    2 * (n * unitsPerOne) < 10 ^ k := by
  have hn : n < 2 ^ (n.log2 + 1) := Nat.lt_log2_self
  obtain ⟨u, hu⟩ : ∃ u, u = 1074 := ⟨_, rfl⟩
  rw [Binary64.unitsPerOne_eq hu]
  have hlt := Nat.mul_lt_mul_of_pos_right hn (Nat.two_pow_pos u)
  calc 2 * (n * 2 ^ u)
    _ < 2 * (2 ^ (n.log2 + 1) * 2 ^ u) := Nat.mul_lt_mul_of_pos_left hlt Nat.two_pos
    _ = 2 ^ (n.log2 + 1 + u + 1) := by rw [← Nat.pow_add, ← Nat.pow_succ']
    _ ≤ 2 ^ k := Nat.pow_le_pow_right Nat.two_pos (by omega)
    _ ≤ 10 ^ k := Nat.pow_le_pow_left (by decide) k

theorem toBinary64?_eq_rounded? (d : Decimal) : d.toBinary64? = d.rounded? := by
  unfold toBinary64?
  split
  next hd =>
    rw [rounded?, hd, Nat.zero_mul, Nat.zero_mul]
    exact (Binary64.nearest?_of_lt d.negative (Nat.pow_pos (by decide))).symm
  next hd =>
  split
  next he =>
    obtain ⟨hexp, hneg⟩ : 400 < d.exponent.toNat ∧ (-d.exponent).toNat = 0 := by omega
    rw [rounded?, hneg, Binary64.nearest?_eq_none]
    rw [Nat.pow_zero, Nat.div_one]
    exact limit_le (Nat.pos_of_ne_zero hd) hexp
  next =>
  split
  next hsmall =>
    obtain ⟨hexp, hneg⟩ : d.exponent.toNat = 0 ∧ d.digits.log2 + 1500 < (-d.exponent).toNat := by
      omega
    rw [rounded?, hexp, Nat.pow_zero, Nat.mul_one, Binary64.nearest?_of_lt _ (lt_half_unit hneg)]
  next => rfl

/-! ## Zeros and the exponent -/

theorem rounded?_shift (negative : Bool) (n : Nat) (e : Int) :
    rounded? ⟨negative, n * 10, e⟩ = rounded? ⟨negative, n, e + 1⟩ := by
  unfold rounded?
  simp only
  rcases lt_or_ge e 0 with he | he
  · obtain ⟨k, rfl⟩ : ∃ k : Nat, e = -(k + 1 : Nat) := ⟨(-e).toNat - 1, by omega⟩
    have h₁ : (-((k + 1 : Nat) : Int)).toNat = 0 := by omega
    have h₂ : (-((k + 1 : Nat) : Int) + 1).toNat = 0 := by omega
    have h₃ : (- -((k + 1 : Nat) : Int)).toNat = k + 1 := by omega
    have h₄ : (-(-((k + 1 : Nat) : Int) + 1)).toNat = k := by omega
    rw [h₁, h₂, h₃, h₄, Nat.pow_zero, Nat.mul_one, Nat.mul_one, Nat.mul_right_comm, Nat.pow_succ,
      Binary64.nearest?_mul_right _ _ _ (by decide)]
  · have h₁ : (e + 1).toNat = e.toNat + 1 := by omega
    have h₂ : (-e).toNat = 0 := by omega
    have h₃ : (-(e + 1)).toNat = 0 := by omega
    rw [h₁, h₂, h₃, Nat.pow_succ', Nat.mul_assoc n 10]

theorem rounded?_shifts (negative : Bool) (n k : Nat) (e : Int) :
    rounded? ⟨negative, n * 10 ^ k, e⟩ = rounded? ⟨negative, n, e + k⟩ := by
  induction k generalizing e with
  | zero => simp
  | succ k ih =>
    rw [Nat.pow_succ, ← Nat.mul_assoc, rounded?_shift, ih, Int.add_right_comm, Int.add_assoc]
    rfl

end Decimal
end Descent
