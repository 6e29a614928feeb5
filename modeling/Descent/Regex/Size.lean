import Descent.Regex.Basic
import Descent.Regex.Encoding

/-!
# The size of an expression

An expression is usable only if its automaton on bytes is small, both the one that reads forward
and the one that reads backward. The size is counted in bytes of memory: a state takes 32, a way out
of a branch 4 and a byte range in a table 8. The forward automaton shares what follows alike and
marks both ends of a group; the backward one shares what is read alike and has a state for each byte
range.
-/

namespace Descent

/-- Which way an automaton reads. -/
inductive Direction
  | forward | backward
deriving DecidableEq, Repr

namespace Regex

def stateSize : Nat := 32

/-- The size of a branch between two states. -/
def branchSize : Nat := stateSize + 2 * 4

/-- The size of a set: a byte for each byte of a single character, one table for a set of the first
128 characters, and the byte ranges for all others. -/
def setSize (direction : Direction) (s : CharSet) : Nat :=
  match s.ranges with
  | [] => stateSize
  | [(low, high)] => if low = high then stateSize * (Char.ofNat low).utf8Size else many
  | _ => many
where
  /-- The size of a set of several characters. -/
  many : Nat :=
    if s.ranges.all (·.2 < 0x80) then 2 * stateSize + 8 * s.ranges.length
    else match direction with
      | .forward =>
        let tables := (ByteRanges.continuations 4 s.byteRanges).eraseDups
        tables.foldr (fun t size => stateSize + 8 * (ByteRanges.grouped t).length + size) stateSize
      | .backward =>
        2 * stateSize + 4 * s.byteRanges.length +
          stateSize * ByteRanges.rangeCount 4 s.byteRanges

def size (direction : Direction) : Regex → Nat
  | empty | anchor _ => stateSize
  | char set => setSize direction set
  | group _ body =>
    body.size direction + (if direction = .forward then 2 * stateSize else 0)
  | seq first second => first.size direction + second.size direction
  | alt first second =>
    let others := second.size direction
    first.size direction + 4 + match second with
      | alt _ _ => others
      | _ => others + 4 + 2 * stateSize
  | rounds least greatest _ body =>
    let round := body.size direction
    match least, greatest with
    | 0, none => if body.canBeEmpty then round + 2 * branchSize + stateSize else round + branchSize
    | least, none => least * round + branchSize
    | least, some greatest =>
      if least = greatest then least * round
      else (if least = 0 ∧ 1 < greatest then stateSize else least * round) + stateSize +
        (greatest - least) * (round + branchSize)

/-- The size that no automaton may exceed. -/
def sizeLimit : Nat := 10 * Nat.pow 2 20

/-- Whether the automata of an expression are small enough. They have a few states more, to begin
and end a match. -/
def fits (r : Regex) : Bool :=
  r.size .forward + 4 * stateSize ≤ sizeLimit && r.size .backward + 5 * stateSize ≤ sizeLimit

end Regex
end Descent
