/-!
# Binary64 numbers

A finite binary64 number is a whole multiple of `2 ^ -1074` with at most 53 significant bits. It is
kept as that multiple, so every value is exact and rounding is arithmetic on natural numbers.
-/

namespace Descent

namespace Binary64

/-- How many units make one: a unit is the least positive number. -/
def unitsPerOne : Nat := Nat.pow 2 1074

/-- The distance, in units, between a magnitude and the next one with 53 significant bits. -/
def spacing (units : Nat) : Nat :=
  Nat.pow 2 (units.log2 - 52)

/-- The first magnitude, in units, that is too large: `2 ^ 1024`. -/
def limit : Nat := Nat.pow 2 2098

theorem limit_pos : 0 < limit := by
  unfold limit
  -- The power itself is never computed.
  generalize 2098 = b
  exact Nat.two_pow_pos b

/-- Magnitudes that some number has: 53 significant bits, below the limit. -/
def Representable (units : Nat) : Prop :=
  units % spacing units = 0 ∧ units < limit

instance (units : Nat) : Decidable (Representable units) :=
  inferInstanceAs (Decidable (_ ∧ _))

end Binary64

/-- A finite binary64 number, `units` times `2 ^ -1074` with a sign. Zero has two signs. -/
structure Binary64 where
  negative : Bool
  units : Nat
  representable : Binary64.Representable units
deriving DecidableEq

namespace Binary64

/-- The zero of a sign. -/
def zero (negative : Bool) : Binary64 :=
  ⟨negative, 0, Nat.zero_mod _, limit_pos⟩

/-- Whether two numbers have the same value: the two zeros do. -/
def sameValue (a b : Binary64) : Bool :=
  a.units == b.units && (a.units == 0 || a.negative == b.negative)

def isIntegral (x : Binary64) : Bool :=
  x.units % unitsPerOne == 0

/-- The quotient of two numbers rounded to an integer, a half to the even neighbour. -/
def roundDiv (numerator denominator : Nat) : Nat :=
  let quotient := numerator / denominator
  let twice := 2 * (numerator % denominator)
  if twice > denominator || (twice == denominator && quotient % 2 == 1) then quotient + 1
  else quotient

/-- The representable magnitude nearest to `numerator / denominator` units, a half to the one with
an even last bit. It may lie above all numbers. -/
def nearestUnits (numerator denominator : Nat) : Nat :=
  let step := spacing (numerator / denominator)
  roundDiv numerator (denominator * step) * step

/-- The number nearest to `numerator / denominator` units; `none` if it is too large. -/
def nearest? (negative : Bool) (numerator denominator : Nat) : Option Binary64 :=
  let units := nearestUnits numerator denominator
  if h : Representable units then some ⟨negative, units, h⟩ else none

end Binary64
end Descent
