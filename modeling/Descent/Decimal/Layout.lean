import Descent.Decimal.Shortest

/-!
# Layouts of a number

Two ways to write a binary64 number: positional, with a point and no exponent, and the layout of
data files, which turns to an exponent for very large and very small numbers.
-/

namespace Descent.Decimal

def sign (d : Decimal) : String :=
  if d.negative then "-" else ""

def digitChars (d : Decimal) : List Char :=
  Nat.toDigits 10 d.digits

/-- The decimal exponent of the leading digit. -/
def scientificExponent (d : Decimal) : Int :=
  d.exponent + d.digitChars.length - 1

/-- Digits on both sides of a point, and at least one on each. -/
def positional (d : Decimal) : String :=
  let digits := d.digitChars
  let whole := d.scientificExponent + 1
  let body :=
    if whole ≤ 0 then "0." ++ String.ofList (List.replicate (-whole).toNat '0' ++ digits)
    else if digits.length ≤ whole.toNat then
      String.ofList (digits ++ List.replicate (whole.toNat - digits.length) '0') ++ ".0"
    else String.ofList (digits.take whole.toNat) ++ "." ++ String.ofList (digits.drop whole.toNat)
  d.sign ++ body

/-- One digit, the others after a point, and the exponent with its sign. -/
def scientific (d : Decimal) : String :=
  let mantissa := match d.digitChars with
    | [] => ""
    | [c] => String.ofList [c]
    | c :: cs => String.ofList [c, '.'] ++ String.ofList cs
  let e := d.scientificExponent
  d.sign ++ mantissa ++ (if e < 0 then "e-" else "e+") ++ toString e.natAbs

end Descent.Decimal

namespace Descent.Binary64

/-- The layout of data files: positional while the leading digit's exponent is from -5 to 15. -/
def dataText (x : Binary64) : String :=
  let d := x.shortest .toEven
  let e := d.scientificExponent
  if -5 ≤ e ∧ e ≤ 15 then d.positional else d.scientific

/-- The layout of literals, which have no exponent: an integral number with all its digits, another
one with its shortest digits. -/
def literalText (x : Binary64) : String :=
  if x.isIntegral then
    Decimal.positional ⟨x.negative, x.units / unitsPerOne, 0⟩
  else (x.shortest .up).positional

end Descent.Binary64
