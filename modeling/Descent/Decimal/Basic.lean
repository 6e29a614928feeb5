import Descent.Text.Digit
import Descent.Decimal.Binary64

/-!
# Decimal numbers

A decimal number is what a literal such as `-1.50e3` says: a sign, an integer and a power of ten.
-/

namespace Descent

/-- The number `digits · 10 ^ exponent` with a sign. -/
structure Decimal where
  negative : Bool
  digits : Nat
  exponent : Int
deriving DecidableEq, Repr

namespace Decimal

/-- The binary64 number nearest to a decimal one; `none` if it is too large. The first two cases
answer for exponents that leave no doubt, so no huge power is computed. -/
def toBinary64? (d : Decimal) : Option Binary64 :=
  if d.digits = 0 then some (.zero d.negative)
  else if d.exponent > 400 then none
  else if d.exponent + d.digits.log2 < -1500 then some (.zero d.negative)
  else
    Binary64.nearest? d.negative (d.digits * Nat.pow 10 d.exponent.toNat * Binary64.unitsPerOne)
      (Nat.pow 10 (-d.exponent).toNat)

/-- Reads the digits before and after the point: an integer part, then perhaps a fraction. -/
def ofParts? (negative : Bool) (whole fraction : List Char) (exponent : Int) : Option Decimal :=
  (Text.readDigits? Text.digit? 10 (whole ++ fraction)).map fun digits =>
    ⟨negative, digits, exponent - fraction.length⟩

/-- Splits off a sign: whether it is a minus, and the rest. -/
def takeSign : List Char → Bool × List Char
  | '-' :: cs => (true, cs)
  | '+' :: cs => (false, cs)
  | cs => (false, cs)

/-- Reads an exponent, `e` or `E` and an integer; an empty text is the exponent zero. -/
def readExponent? : List Char → Option Int
  | [] => some 0
  | c :: cs =>
    if c = 'e' ∨ c = 'E' then
      let (negative, digits) := takeSign cs
      (Text.decimal? digits).map fun n => if negative then -(n : Int) else n
    else none

/-- Reads a decimal literal: a sign, digits with at most one point among or beside them, and an
exponent. The sign and the exponent may be absent, the digits may not. -/
def read? (cs : List Char) : Option Decimal :=
  let (negative, cs) := takeSign cs
  let isDigit := fun c => (Text.digit? c).isSome
  let whole := cs.takeWhile isDigit
  let (fraction, rest) := match cs.dropWhile isDigit with
    | '.' :: cs => (cs.takeWhile isDigit, cs.dropWhile isDigit)
    | cs => ([], cs)
  if whole.isEmpty && fraction.isEmpty then none
  else (readExponent? rest).bind (ofParts? negative whole fraction)

end Decimal
end Descent
