import Descent.Decimal.Layout
import Descent.Proofs.Decimal.Literal
import Descent.Proofs.Decimal.Rounding

/-!
# Literals read back

The shortest decimal of a number rounds to that number, whichever way ties go, and the literal of a
number is digits on both sides of a point that read as that number.
-/

namespace Descent

namespace Binary64

variable {x : Binary64} {tie : Tie} {d : Decimal}

/-! ## Shortest decimals -/

theorem toBinary64?_of_candidate? {e : Int} (h : candidate? tie x e = some d) :
    d.toBinary64? = some x := by
  unfold candidate? at h
  simp only at h
  split at h
  next => cases h
  next hbelow _ =>
    cases h
    exact eq_of_beq hbelow
  next _ habove =>
    cases h
    exact eq_of_beq habove
  next hbelow habove =>
    cases h
    split
    · exact eq_of_beq habove
    · exact eq_of_beq hbelow

theorem toBinary64?_of_firstCandidate? {count more : Nat}
    (h : firstCandidate? tie x count more = some d) : d.toBinary64? = some x := by
  induction more generalizing count with
  | zero => cases h
  | succ more ih =>
    rcases Option.or_eq_some_iff.1 h with h | ⟨-, h⟩
    · exact toBinary64?_of_candidate? h
    · exact ih h

theorem toBinary64?_stripZeros (d : Decimal) (fuel : Nat) :
    (stripZeros d fuel).toBinary64? = d.toBinary64? := by
  induction fuel generalizing d with
  | zero => rfl
  | succ fuel ih =>
    unfold stripZeros
    split
    next hd =>
      obtain ⟨negative, n, e⟩ := d
      rw [ih, Decimal.toBinary64?_eq_rounded?, Decimal.toBinary64?_eq_rounded?,
        ← Decimal.rounded?_shift, Nat.div_mul_cancel (Nat.dvd_of_mod_eq_zero hd.2)]
    next => rfl

theorem toBinary64?_exact (x : Binary64) : x.exact.toBinary64? = some x := by
  obtain ⟨u, hu⟩ : ∃ u, u = 1074 := ⟨_, rfl⟩
  have hdigits : x.exact = ⟨x.negative, x.units * 5 ^ u, -u⟩ := by
    unfold exact
    rw [← hu, Decimal.mk.injEq]
    exact ⟨rfl, rfl, by omega⟩
  have hzero : (-(u : Int)).toNat = 0 := by omega
  have hneg : (- -(u : Int)).toNat = u := by omega
  have hten : x.units * 5 ^ u * 10 ^ 0 * 2 ^ u = x.units * 10 ^ u := by
    rw [Nat.pow_zero, Nat.mul_one, Nat.mul_assoc, ← Nat.mul_pow]
  rw [hdigits, Decimal.toBinary64?_eq_rounded?, Decimal.rounded?]
  simp only [unitsPerOne_eq hu, hzero, hneg, hten]
  exact nearest?_mul_self x (Nat.pow_pos (by decide))

theorem toBinary64?_shortest (tie : Tie) (x : Binary64) :
    (x.shortest tie).toBinary64? = some x := by
  unfold shortest
  split
  next h =>
    obtain ⟨negative, units, hr⟩ := x
    cases h
    rfl
  next =>
    rw [toBinary64?_stripZeros]
    cases h : firstCandidate? tie x 1 17 with
    | none => exact toBinary64?_exact x
    | some d => exact toBinary64?_of_firstCandidate? h

end Binary64

/-! ## The positional layout -/

namespace Decimal

variable {d : Decimal} {whole fraction : List Char}

/-- The digits on the two sides of a point that a decimal number is written with. -/
structure Parts (d : Decimal) (whole fraction : List Char) : Prop where
  whole_ne_nil : whole ≠ []
  fraction_ne_nil : fraction ≠ []
  whole_isDigit : ∀ c ∈ whole, c.isDigit
  fraction_isDigit : ∀ c ∈ fraction, c.isDigit
  rounded?_eq : ((Text.readDigits? Text.digit? 10 (whole ++ fraction)).map fun n =>
    rounded? ⟨d.negative, n, -fraction.length⟩) = some d.rounded?

theorem isDigit_of_mem_digitChars {c : Char} (h : c ∈ d.digitChars) : c.isDigit :=
  Text.isDigit_of_decimal? (Text.decimal?_toDigits d.digits) h

theorem digitChars_ne_nil : d.digitChars ≠ [] :=
  Nat.toDigits_ne_nil

theorem readDigits?_digitChars :
    Text.readDigits? Text.digit? 10 d.digitChars = some d.digits :=
  Text.readDigits?_toDigits_ten d.digits

theorem isDigit_of_mem_replicate {k : Nat} {c : Char} (h : c ∈ List.replicate k '0') :
    c.isDigit := by
  rw [List.eq_of_mem_replicate h]
  rfl

/-- All digits stand behind the point. -/
theorem parts_small {k : Nat} (h : d.exponent = -(k + d.digitChars.length : Nat)) :
    d.Parts ['0'] (List.replicate k '0' ++ d.digitChars) where
  whole_ne_nil := nofun
  fraction_ne_nil := by simp [digitChars_ne_nil]
  whole_isDigit := by
    rintro _ (_ | ⟨_, ⟨⟩⟩)
    rfl
  fraction_isDigit := fun c hc =>
    (List.mem_append.1 hc).elim isDigit_of_mem_replicate isDigit_of_mem_digitChars
  rounded?_eq := by
    rw [← List.append_assoc, List.singleton_append, ← List.replicate_succ,
      Text.readDigits?_append, Text.readDigits?_zeros, readDigits?_digitChars]
    simp only [Option.bind_some, Option.map_some, Nat.zero_mul, Nat.zero_add, List.length_append,
      List.length_replicate, ← h]

/-- No digit but a zero stands behind the point. -/
theorem parts_large {k : Nat} (h : d.exponent = k) :
    d.Parts (d.digitChars ++ List.replicate k '0') ['0'] where
  whole_ne_nil := by simp [digitChars_ne_nil]
  fraction_ne_nil := nofun
  whole_isDigit := fun c hc =>
    (List.mem_append.1 hc).elim isDigit_of_mem_digitChars isDigit_of_mem_replicate
  fraction_isDigit := by
    rintro _ (_ | ⟨_, ⟨⟩⟩)
    rfl
  rounded?_eq := by
    have hexp : -1 + ((k + 1 : Nat) : Int) = k := by omega
    rw [List.append_assoc, ← List.replicate_succ', Text.readDigits?_append, readDigits?_digitChars,
      Text.readDigits?_zeros]
    simp only [Option.bind_some, Option.map_some, List.length_replicate, List.length_singleton,
      Nat.add_zero, Nat.cast_one, rounded?_shifts, hexp, ← h]

/-- The point stands between digits. -/
theorem parts_split {k : Nat} (hk : 0 < k) (hlt : k < d.digitChars.length)
    (h : d.exponent = -(d.digitChars.length - k : Nat)) :
    d.Parts (d.digitChars.take k) (d.digitChars.drop k) where
  whole_ne_nil := by simp [hk.ne', digitChars_ne_nil]
  fraction_ne_nil := by simp [hlt]
  whole_isDigit := fun c hc => isDigit_of_mem_digitChars (List.mem_of_mem_take hc)
  fraction_isDigit := fun c hc => isDigit_of_mem_digitChars (List.mem_of_mem_drop hc)
  rounded?_eq := by
    rw [List.take_append_drop, readDigits?_digitChars, List.length_drop, ← h]
    rfl

theorem exists_parts (d : Decimal) : ∃ whole fraction, d.Parts whole fraction ∧
    d.positional.toList = d.sign.toList ++ (whole ++ '.' :: fraction) := by
  have hlength := List.length_pos_iff.2 (digitChars_ne_nil (d := d))
  have hwhole : d.scientificExponent + 1 = d.exponent + d.digitChars.length := by
    unfold scientificExponent
    omega
  unfold positional
  simp only [hwhole, String.toList_append]
  split
  next hsmall =>
    refine ⟨_, _, parts_small (k := (-(d.exponent + d.digitChars.length)).toNat) (by omega), ?_⟩
    simp only [String.toList_append, String.toList_ofList]
    rfl
  split
  next hlarge =>
    refine ⟨_, _, parts_large
      (k := (d.exponent + d.digitChars.length).toNat - d.digitChars.length) (by omega), ?_⟩
    simp only [String.toList_append, String.toList_ofList]
    rfl
  next hsplit =>
    refine ⟨_, _, parts_split (k := (d.exponent + d.digitChars.length).toNat) (by omega)
      (by omega) (by omega), ?_⟩
    simp only [String.toList_append, String.toList_ofList, List.append_assoc]
    rfl

theorem sign_toList (d : Decimal) : d.sign.toList = if d.negative then ['-'] else [] := by
  unfold sign
  split <;> rfl

private theorem takeSign_sign (h : d.Parts whole fraction) :
    takeSign (d.sign.toList ++ (whole ++ '.' :: fraction)) =
      (d.negative, whole ++ '.' :: fraction) := by
  rw [sign_toList]
  cases d.negative with
  | true => rfl
  | false =>
    obtain ⟨c, cs, rfl⟩ := List.exists_cons_of_ne_nil h.whole_ne_nil
    have hc := h.whole_isDigit c (List.mem_cons_self ..)
    rw [if_neg Bool.false_ne_true, List.nil_append, List.cons_append]
    unfold takeSign
    split
    next heq =>
      cases heq
      cases hc
    next heq =>
      cases heq
      cases hc
    next => rfl

theorem read?_positional (h : d.Parts whole fraction) :
    read? (d.sign.toList ++ (whole ++ '.' :: fraction)) =
      (Text.readDigits? Text.digit? 10 (whole ++ fraction)).map fun n =>
        ⟨d.negative, n, -fraction.length⟩ := by
  have hdigit : (fun c => (Text.digit? c).isSome) = Char.isDigit := funext Text.isSome_digit?
  have htake : (whole ++ '.' :: fraction).takeWhile Char.isDigit = whole := by
    rw [List.takeWhile_append_of_pos h.whole_isDigit, List.takeWhile_cons_of_neg (by decide),
      List.append_nil]
  have hdrop : (whole ++ '.' :: fraction).dropWhile Char.isDigit = '.' :: fraction := by
    rw [List.dropWhile_append_of_pos h.whole_isDigit, List.dropWhile_cons_of_neg (by decide)]
  have hfraction := List.takeWhile_eq_self_iff.2 h.fraction_isDigit
  have hrest := List.dropWhile_eq_nil_iff.2 h.fraction_isDigit
  have hne : whole.isEmpty = false := List.isEmpty_eq_false_iff.2 h.whole_ne_nil
  simp only [read?, takeSign_sign h, hdigit, htake, hdrop, hfraction, hrest, hne, Bool.false_and,
    Bool.false_eq_true, if_false, readExponent?, Option.bind_some, ofParts?, Int.zero_sub]

theorem toBinary64?_read?_positional (h : d.Parts whole fraction) :
    (read? (d.sign.toList ++ (whole ++ '.' :: fraction))).bind toBinary64? = d.toBinary64? := by
  have hrounded := h.rounded?_eq
  rw [read?_positional h, toBinary64?_eq_rounded?]
  obtain ⟨n, hn, heq⟩ := Option.map_eq_some_iff.1 hrounded
  rw [hn, Option.map_some, Option.bind_some, toBinary64?_eq_rounded?, heq]

end Decimal

/-! ## Literals of numbers -/

namespace Binary64

variable {x : Binary64}

theorem toBinary64?_integral (h : x.isIntegral) :
    Decimal.toBinary64? ⟨x.negative, x.units / unitsPerOne, 0⟩ = some x := by
  have hunits : x.units / unitsPerOne * unitsPerOne = x.units :=
    Nat.div_mul_cancel (Nat.dvd_of_mod_eq_zero (eq_of_beq h))
  rw [Decimal.toBinary64?_eq_rounded?, Decimal.rounded?]
  simp only [Int.toNat_zero, Int.neg_zero, Nat.pow_zero, Nat.mul_one, hunits]
  have hself := nearest?_mul_self x Nat.one_pos
  rwa [Nat.mul_one] at hself

theorem exists_literalText (x : Binary64) : ∃ d whole fraction, Decimal.Parts d whole fraction ∧
    x.literalText.toList = d.sign.toList ++ (whole ++ '.' :: fraction) ∧
    d.toBinary64? = some x := by
  unfold literalText
  split
  next h =>
    obtain ⟨whole, fraction, hparts, htext⟩ := Decimal.exists_parts ⟨x.negative, _, 0⟩
    exact ⟨_, whole, fraction, hparts, htext, toBinary64?_integral h⟩
  next =>
    obtain ⟨whole, fraction, hparts, htext⟩ := (x.shortest .up).exists_parts
    exact ⟨_, whole, fraction, hparts, htext, toBinary64?_shortest .up x⟩

/-- **The literal of a number reads back as it.** -/
theorem read?_literalText (x : Binary64) :
    (Decimal.read? x.literalText.toList).bind Decimal.toBinary64? = some x := by
  obtain ⟨d, whole, fraction, hparts, htext, hx⟩ := x.exists_literalText
  rw [htext, Decimal.toBinary64?_read?_positional hparts, hx]

end Binary64
end Descent
