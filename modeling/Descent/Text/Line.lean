import Descent.Text.Size

/-!
# Lines

A line break is a line feed, a carriage return, or the two in that order, which count once.
-/

namespace Descent.Text

/-- Whether a character ends a line. -/
def isBreak (c : Char) : Bool :=
  c == '\n' || c == '\r'

/-- The lines of a text. A text that ends in a break has an empty last line. -/
def lines : List Char → List (List Char)
  | [] => [[]]
  | '\r' :: '\n' :: cs => [] :: lines cs
  | c :: cs =>
    if isBreak c then [] :: lines cs
    else match lines cs with
      | [] => [[c]]
      | line :: lines => (c :: line) :: lines

/-- Counts line breaks: how many there are, and the byte offset just past the last one. -/
structure Breaks where
  count : Nat
  lineStart : Nat
deriving DecidableEq, Repr

/-- Counts the breaks of a text that begins at byte `offset` of the whole, given those before it. -/
def breaksFrom (found : Breaks) (offset : Nat) : List Char → Breaks
  | [] => found
  | '\r' :: '\n' :: cs => breaksFrom ⟨found.count + 1, offset + 2⟩ (offset + 2) cs
  | c :: cs =>
    let next := offset + c.utf8Size
    breaksFrom (if isBreak c then ⟨found.count + 1, next⟩ else found) next cs

def breaks (cs : List Char) : Breaks :=
  breaksFrom ⟨0, 0⟩ 0 cs

end Descent.Text
