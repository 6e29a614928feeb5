import Descent.Text.Size
import Descent.Text.Space

/-!
# Words

A word is a run of ASCII letters, digits and underscores. It is scanned with the space on both
sides of it and compared without regard to case.
-/

namespace Descent

namespace Word

def has (c : Char) : Bool :=
  c.isAlphanum || c == '_'

/-- The lower case of a character of an expected word, as far as it can meet a scanned one: besides
the capitals of ASCII only the Kelvin sign has a lower case within ASCII. -/
def lowerChar (c : Char) : Char :=
  if c = '\u212a' then 'k' else c.toLower

/-- The form in which an expected word is compared. -/
def lower (expected : String) : String :=
  String.ofList (expected.toList.map lowerChar)

end Word

/-- A word as it was scanned: the byte offsets before the space in front of it and after the space
that follows it, and the word in lower case, which may be empty. -/
structure ScannedWord where
  start : Nat
  stop : Nat
  word : String
deriving DecidableEq, Repr

namespace ScannedWord

/-- Scans the front of a text that stands at byte `start`. -/
def ofText (start : Nat) (cs : List Char) : ScannedWord :=
  let leading := cs.takeWhile Text.isSpace
  let text := cs.dropWhile Text.isSpace
  let word := text.takeWhile Word.has
  let trailing := (text.dropWhile Word.has).takeWhile Text.isSpace
  { start
    stop := start + Text.size leading + Text.size word + Text.size trailing
    word := String.ofList (word.map Char.toLower) }

/-- Scans at a byte offset of a text, if that is between two characters. -/
def at? (text : List Char) (start : Nat) : Option ScannedWord :=
  (Text.splitAt? start text).map fun (_, rest) => ofText start rest

end ScannedWord
end Descent
