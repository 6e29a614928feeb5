import Descent.Text.Digit
import Descent.Text.Space
import Descent.Text.WordClass

/-!
# Sets of characters

A set is kept as the increasing ranges of its code points, no two of them adjacent, so that equal
sets are equal values.
-/

namespace Descent

/-- A set of characters. -/
structure CharSet where
  ranges : List (Nat × Nat)
deriving DecidableEq, Repr

namespace CharSet

/-- The largest code point. -/
def last : Nat := 0x10FFFF

/-- Whether a code point is in one of some increasing ranges. -/
def within (n : Nat) : List (Nat × Nat) → Bool
  | [] => false
  | (low, high) :: rest => low ≤ n && (n ≤ high || within n rest)

/-- Whether a character is in a set. -/
def holds (s : CharSet) (c : Char) : Bool :=
  within c.toNat s.ranges

/-- Adds a range to increasing ranges, and joins those that it meets. -/
def join (low high : Nat) : List (Nat × Nat) → List (Nat × Nat)
  | [] => [(low, high)]
  | (a, b) :: rest =>
    if high + 1 < a then (low, high) :: (a, b) :: rest
    else if b + 1 < low then (a, b) :: join low high rest
    else join (min low a) (max high b) rest

/-- What increasing ranges leave out from a code point on. -/
def gaps (first : Nat) : List (Nat × Nat) → List (Nat × Nat)
  | [] => if first ≤ last then [(first, last)] else []
  | (low, high) :: rest =>
    if first < low then (first, low - 1) :: gaps (high + 1) rest else gaps (high + 1) rest

def empty : CharSet := ⟨[]⟩

/-- The characters between two, these included. -/
def range (low high : Char) : CharSet := ⟨[(low.toNat, high.toNat)]⟩

def single (c : Char) : CharSet := range c c

def union (s t : CharSet) : CharSet :=
  ⟨t.ranges.foldr (fun (low, high) ranges => join low high ranges) s.ranges⟩

def complement (s : CharSet) : CharSet := ⟨gaps 0 s.ranges⟩

def inter (s t : CharSet) : CharSet := (s.complement.union t.complement).complement

def diff (s t : CharSet) : CharSet := s.inter t.complement

def unionOf (sets : List CharSet) : CharSet := sets.foldl union empty

def ofList (cs : List Char) : CharSet := unionOf (cs.map single)

/-- The decimal digits of all scripts. -/
def digits : CharSet := ⟨Text.decimalDigits⟩

def spaces : CharSet := ⟨Text.spaces⟩

/-- The word constituents of all scripts. -/
def words : CharSet := ⟨Text.wordConstituents⟩

/-- All characters, or all but the line feed. -/
def any (withLineFeed : Bool) : CharSet :=
  if withLineFeed then empty.complement else (single '\n').complement

theorem holds_spaces (c : Char) : spaces.holds c = Text.isSpace c := by
  rw [Bool.eq_iff_iff]
  simp [holds, spaces, Text.spaces, within, Text.isSpace]
  omega

end CharSet
end Descent
