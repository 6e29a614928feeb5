import Descent.Regex.CharSet

/-!
# Sets of characters as bytes

A set is written as sequences of byte ranges, so that a character is in the set if its encoded form
goes through one of them. A character of the first 128 takes one byte; any other takes a leading
byte and one, two or three bytes of six bits each. The sequences come in increasing order.
-/

namespace Descent

/-- A range for each byte of an encoded character. -/
abbrev ByteRanges := List (Nat × Nat)

namespace ByteRanges

/-- The sequences for numbers between two bounds that are written as a leading byte, marked by what
is added to it, and a number of bytes of six bits. Where only a part of the numbers under a leading
byte is meant, they are split under the next byte. -/
def between : Nat → Nat → Nat → Nat → List ByteRanges
  | 0, mark, low, high => if low ≤ high then [[(mark + low, mark + high)]] else []
  | k + 1, mark, low, high =>
    let unit := 64 ^ (k + 1)
    let a := low / unit
    let b := high / unit
    let x := low % unit
    let y := high % unit
    let under := fun lead x y => (between k 0x80 x y).map ((mark + lead, mark + lead) :: ·)
    if high < low then []
    else if a = b ∧ (x ≠ 0 ∨ y + 1 ≠ unit) then under a x y
    else
      let first := if x = 0 then a else a + 1
      let last := if y + 1 = unit then b + 1 else b
      (if x = 0 then [] else under a x (unit - 1)) ++
        (if first < last then
          [(mark + first, mark + last - 1) :: List.replicate (k + 1) (0x80, 0xBF)] else []) ++
        (if y + 1 = unit then [] else under b 0 y)

/-- The sequences for a range of code points, surrogates left out. -/
def ofRange (low high : Nat) : List ByteRanges :=
  between 0 0 low (min high 0x7F) ++
    between 1 0xC0 (max low 0x80) (min high 0x7FF) ++
    between 2 0xE0 (max low 0x800) (min high 0xD7FF) ++
    between 2 0xE0 (max low 0xE000) (min high 0xFFFF) ++
    between 3 0xF0 (max low 0x10000) high

/-- Sequences by their first range, each group with what follows there. -/
def grouped : List ByteRanges → List ((Nat × Nat) × List ByteRanges)
  | [] => []
  | [] :: rest => grouped rest
  | (r :: tail) :: rest =>
    match grouped rest with
    | (r', tails) :: groups =>
      if r = r' then (r, tail :: tails) :: groups else (r, [tail]) :: (r', tails) :: groups
    | [] => [(r, [tail])]

/-- How many ranges sequences of some greatest length have, if what they begin with alike counts
once. -/
def rangeCount : Nat → List ByteRanges → Nat
  | 0, _ => 0
  | n + 1, rs => ((grouped rs).map fun (_, tails) => 1 + rangeCount n tails).sum

/-- What can follow in sequences of some greatest length, at their start and after each range but a
last one. -/
def continuations : Nat → List ByteRanges → List (List ByteRanges)
  | 0, _ => []
  | n + 1, rs => rs :: (grouped rs).flatMap fun (_, tails) =>
      if tails = [[]] then [] else continuations n tails

end ByteRanges

/-- The sequences of a set. -/
def CharSet.byteRanges (s : CharSet) : List ByteRanges :=
  s.ranges.flatMap fun (low, high) => ByteRanges.ofRange low high

end Descent
