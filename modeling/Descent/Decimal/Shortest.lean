import Descent.Decimal.Basic

/-!
# Shortest digits

The shortest decimal of a binary64 number has the fewest digits that read back as it, and is the
nearest among those. For each count of digits only the two neighbours of the number on that grid
can be the answer: if any point of the grid reads back, one of these does.
-/

namespace Descent.Binary64

/-- Which way a number half-way between its two candidates goes. -/
inductive Tie
  | up | toEven
deriving DecidableEq, Repr

/-- The decimal exponent of the leading digit of a positive number. -/
def leadingExponent (units : Nat) : Int :=
  ((Nat.toDigits 10 (units * Nat.pow 10 400 / unitsPerOne)).length : Int) - 401

/-- The better of the two neighbours of `x` among the multiples of `10 ^ exponent`, if one of them
reads back as `x`. -/
def candidate? (tie : Tie) (x : Binary64) (exponent : Int) : Option Decimal :=
  let numerator := x.units * Nat.pow 10 (-exponent).toNat
  let denominator := unitsPerOne * Nat.pow 10 exponent.toNat
  let down := numerator / denominator
  let below : Decimal := ⟨x.negative, down, exponent⟩
  let above : Decimal := ⟨x.negative, down + 1, exponent⟩
  let twice := 2 * (numerator % denominator)
  let preferAbove := twice > denominator ||
    (twice == denominator && (tie == .up || down % 2 == 1))
  match below.toBinary64? == some x, above.toBinary64? == some x with
  | false, false => none
  | true, false => some below
  | false, true => some above
  | true, true => some (if preferAbove then above else below)

/-- The first candidate with at least `count` digits, trying `more` counts. -/
def firstCandidate? (tie : Tie) (x : Binary64) (count : Nat) : Nat → Option Decimal
  | 0 => none
  | more + 1 =>
    (candidate? tie x (leadingExponent x.units + 1 - count)).or
      (firstCandidate? tie x (count + 1) more)

/-- Moves up to `fuel` trailing zeros from the digits to the exponent. -/
def stripZeros (d : Decimal) : Nat → Decimal
  | 0 => d
  | fuel + 1 =>
    if d.digits ≠ 0 ∧ d.digits % 10 = 0 then
      stripZeros { d with digits := d.digits / 10, exponent := d.exponent + 1 } fuel
    else d

/-- The number in full: a unit is `5 ^ 1074 · 10 ^ -1074`. -/
def exact (x : Binary64) : Decimal :=
  ⟨x.negative, x.units * Nat.pow 5 1074, -1074⟩

/-- The shortest decimal that reads back as `x`, and of those the nearest. -/
def shortest (tie : Tie) (x : Binary64) : Decimal :=
  if x.units = 0 then ⟨x.negative, 0, 0⟩
  else stripZeros ((firstCandidate? tie x 1 17).getD x.exact) 20

end Descent.Binary64
