import Descent.Text.Digit
import Mathlib.Data.List.Forall2
import Mathlib.Data.List.Induction
import Mathlib.Data.Nat.Digits.Defs
import Mathlib.Tactic.Ring

/-!
# Digits read back

* `IsHexadecimal`: the texts of hexadecimal digits, with the numbers that they denote.

Reading digits is a homomorphism from concatenation to positional arithmetic. So what is read is
the number of the digits in positional notation, and the digits of a number read back as the number.
-/

namespace Descent.Text

section
variable {value? : Char → Option Nat} {base n : Nat} {cs : List Char}

theorem readDigits?_append_singleton (cs : List Char) (c : Char) :
    readDigits? value? base (cs ++ [c]) =
      (readDigits? value? base cs).bind fun n => (value? c).map fun d => n * base + d := by
  simp [readDigits?, List.foldl_append]

theorem readDigits?_append (l r : List Char) :
    readDigits? value? base (l ++ r) =
      (readDigits? value? base l).bind fun n =>
        (readDigits? value? base r).map fun m => n * base ^ r.length + m := by
  induction r using List.reverseRecOn with
  | nil => simp [readDigits?]
  | append_singleton r c ih =>
    rw [← List.append_assoc, readDigits?_append_singleton, ih, readDigits?_append_singleton]
    cases readDigits? value? base l <;> cases readDigits? value? base r <;> cases value? c <;> simp
    ring

/-- Only digits are read. -/
theorem isSome_of_readDigits? (h : readDigits? value? base cs = some n) {c : Char} (hc : c ∈ cs) :
    (value? c).isSome := by
  induction cs using List.reverseRecOn generalizing n with
  | nil => cases hc
  | append_singleton cs d ih =>
    rw [readDigits?_append_singleton] at h
    obtain ⟨m, hm, hd⟩ := Option.bind_eq_some_iff.1 h
    obtain ⟨_, hd, -⟩ := Option.map_eq_some_iff.1 hd
    rcases List.mem_append.1 hc with hc | hc
    · exact ih hm hc
    · rw [List.mem_singleton.1 hc, hd]
      rfl

/-- What is read is the number of the digits in positional notation. -/
theorem readDigits?_eq_some_iff : readDigits? value? base cs = some n ↔
    ∃ ds, List.Forall₂ (fun c d => value? c = some d) cs ds ∧ Nat.ofDigits base ds.reverse = n := by
  induction cs generalizing n with
  | nil => simp [readDigits?]
  | cons c cs ih =>
    have hread : readDigits? value? base (c :: cs) = (value? c).bind fun d =>
        (readDigits? value? base cs).map (d * base ^ cs.length + ·) := by
      rw [← List.singleton_append, readDigits?_append]
      simp [readDigits?]
    have hdigits (d : Nat) {ds : List Nat} (h : cs.length = ds.length) :
        Nat.ofDigits base (d :: ds).reverse =
          d * base ^ cs.length + Nat.ofDigits base ds.reverse := by
      rw [List.reverse_cons, Nat.ofDigits_append, List.length_reverse, h, Nat.ofDigits_singleton]
      ring
    simp only [hread, Option.bind_eq_some_iff, Option.map_eq_some_iff, ih]
    constructor
    · rintro ⟨d, hd, _, ⟨ds, hds, rfl⟩, rfl⟩
      exact ⟨d :: ds, .cons hd hds, hdigits d hds.length_eq⟩
    · rintro ⟨_, hall, rfl⟩
      obtain _ | ⟨hd, hds⟩ := hall
      exact ⟨_, hd, _, ⟨_, hds, rfl⟩, (hdigits _ hds.length_eq).symm⟩

theorem readDigits?_toDigits (hb : 1 < base) (hv : ∀ d < base, value? d.digitChar = some d)
    (n : Nat) : readDigits? value? base (Nat.toDigits base n) = some n := by
  induction n using Nat.strongRecOn with
  | ind n ih =>
    by_cases hn : n < base
    · rw [Nat.toDigits_of_lt_base hn]
      simp [readDigits?, hv n hn]
    · have hle := Nat.le_of_not_lt hn
      have hdiv : n / base < n := Nat.div_lt_self (by omega) hb
      rw [Nat.toDigits_of_base_le hb hle, readDigits?_append_singleton, ih _ hdiv,
        Option.bind_some, hv _ (Nat.mod_lt n (by omega))]
      simp [Nat.div_add_mod']

end

/-! ## Decimal digits -/

theorem isSome_digit? (c : Char) : (digit? c).isSome = c.isDigit := by
  have hiff : c.isDigit ↔ '0' ≤ c ∧ c ≤ '9' := by
    simp only [Char.isDigit, Bool.and_eq_true, decide_eq_true_eq]
    rfl
  unfold digit?
  by_cases h : '0' ≤ c ∧ c ≤ '9'
  · rw [if_pos h, hiff.2 h]
    rfl
  · rw [if_neg h, Bool.eq_false_iff.2 (mt hiff.1 h)]
    rfl

theorem digit?_digitChar {d : Nat} (h : d < 10) : digit? d.digitChar = some d := by
  revert d
  decide

theorem readDigits?_toDigits_ten (n : Nat) :
    readDigits? digit? 10 (Nat.toDigits 10 n) = some n :=
  readDigits?_toDigits (by decide) (fun _ => digit?_digitChar) n

theorem readDigits?_zeros (k : Nat) : readDigits? digit? 10 (List.replicate k '0') = some 0 := by
  induction k with
  | zero => rfl
  | succ k ih =>
    rw [List.replicate_succ', readDigits?_append_singleton, ih]
    rfl

theorem decimal?_toDigits (n : Nat) : decimal? (Nat.toDigits 10 n) = some n := by
  rw [decimal?, if_neg (by simp [Nat.toDigits_ne_nil]), readDigits?_toDigits_ten]

theorem isDigit_of_decimal? {cs : List Char} {n : Nat} (h : decimal? cs = some n) {c : Char}
    (hc : c ∈ cs) : c.isDigit := by
  unfold decimal? at h
  split at h
  · cases h
  · rw [← isSome_digit?]
    exact isSome_of_readDigits? h hc

/-! ## Hexadecimal digits -/

/-- A hexadecimal digit in either case, and its value. -/
def IsHexDigit (c : Char) (d : Nat) : Prop :=
  d < 16 ∧ (c = d.digitChar ∨ c = d.digitChar.toUpper)

theorem hexDigit?_eq_some_iff {c : Char} {d : Nat} : hexDigit? c = some d ↔ IsHexDigit c d := by
  constructor
  · intro h
    have hall : ∀ n < 128, ∀ d ∈ hexDigit? (Char.ofNat n), IsHexDigit (Char.ofNat n) d := by
      unfold IsHexDigit
      decide +kernel
    have hc : c.toNat < 128 := by
      unfold hexDigit? at h
      split at h
      next hc => exact Nat.lt_of_le_of_lt hc.2 (by decide)
      split at h
      next hc => exact Nat.lt_of_le_of_lt hc.2 (by decide)
      split at h
      next hc => exact Nat.lt_of_le_of_lt hc.2 (by decide)
      cases h
    have hd := hall c.toNat hc d
    rw [Char.ofNat_toNat] at hd
    exact hd h
  · have hall : ∀ d < 16, hexDigit? d.digitChar = some d ∧
        hexDigit? d.digitChar.toUpper = some d := by decide
    rintro ⟨hd, rfl | rfl⟩
    · exact (hall d hd).1
    · exact (hall d hd).2

/-- One hexadecimal digit or more, and the number that they denote. -/
def IsHexadecimal (cs : List Char) (n : Nat) : Prop :=
  cs ≠ [] ∧ ∃ ds, List.Forall₂ IsHexDigit cs ds ∧ Nat.ofDigits 16 ds.reverse = n

theorem hexadecimal?_eq_some_iff {cs : List Char} {n : Nat} :
    hexadecimal? cs = some n ↔ IsHexadecimal cs n := by
  simp only [hexadecimal?, List.isEmpty_iff, IsHexadecimal, Option.ite_none_left_eq_some,
    readDigits?_eq_some_iff, hexDigit?_eq_some_iff]

theorem hexDigit?_digitChar {d : Nat} (h : d < 16) : hexDigit? d.digitChar = some d :=
  hexDigit?_eq_some_iff.2 ⟨h, .inl rfl⟩

theorem hexadecimal?_hex (n : Nat) : hexadecimal? (hex n).toList = some n := by
  have hne : Nat.toDigits 16 n ≠ [] := Nat.toDigits_ne_nil
  rw [hex, String.toList_ofList, hexadecimal?, if_neg (by simp [hne])]
  exact readDigits?_toDigits (by decide) (fun _ => hexDigit?_digitChar) n

end Descent.Text
