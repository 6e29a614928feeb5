import Descent.Cursor.Window
import Descent.Pattern

/-!
# Looking ahead and reading

Looking ahead leaves the cursor where it is. Reading moves past what was found, and leaves the
cursor where it was if that is not what was asked for.
-/

namespace Descent.Cursor

def sees (c : Cursor) (p : Pattern) : Except Failure Bool :=
  (p.extent? c.ahead).map (·.isSome)

/-- Whether the next character belongs to a word, or whether the next word, after any space, is the
expected one. -/
def seesWord (c : Cursor) (expected : Option String) : Bool × Cursor :=
  match expected with
  | none => (c.ahead.head?.any Word.has, c)
  | some expected =>
    let (scanned, c) := c.scanned
    (scanned.word == Word.lower expected, c)

/-- Takes a word in lower case, with the space on both sides of it. The word may be empty. -/
def takeWord (c : Cursor) : String × Cursor :=
  let (scanned, c) := c.scanned
  (scanned.word, c.moveTo scanned.stop)

def take? (c : Cursor) (p : Pattern) : Outcome Cursor (Option String) :=
  match p.extent? c.ahead with
  | .error e => (.error e, c)
  | .ok none => (.ok none, c)
  | .ok (some n) => (.ok (some (String.ofList (c.ahead.take n))), c.forward n)

/-- Takes what a pattern matches, or fails with the given message or one that names the pattern. -/
def take (c : Cursor) (p : Pattern) (message : Option String) : Outcome Cursor String :=
  match c.take? p with
  | (.error e, c) => (.error e, c)
  | (.ok (some matched), c) => (.ok matched, c)
  | (.ok none, c) => (.error (c.unexpected (message.getD s!"expected: {p.text}")), c)

/-- The message about a word that is not the expected one, if it is not. -/
def wordFault? (expected : Option String) (word : String) : Option String :=
  match expected with
  | none => if word.isEmpty then some "expected any word" else none
  | some expected =>
    if word == Word.lower expected then none else some s!"expected word: {expected}"

/-- Takes the expected word, or any word that is not empty. -/
def takeThisWord (c : Cursor) (expected : Option String) : Outcome Cursor String :=
  let (word, after) := c.takeWord
  match wordFault? expected word with
  | none => (.ok word, after)
  | some message =>
    let back := after.moveTo c.offset
    (.error (back.unexpected message), back)

/-- The character with a hexadecimal code point; surrogates and numbers past the last character
have none. -/
def codePoint? (hex : String) : Option Char :=
  (Text.hexadecimal? hex.toList).bind fun n =>
    if h : n.isValidChar then some (Char.ofNatAux n h) else none

/-- Decodes the code point of an escape that ends at the cursor. -/
def decode (c : Cursor) (hex : String) : Except Failure Char :=
  match codePoint? hex with
  | some ch => .ok ch
  | none => .error (c.unexpected s!"invalid unicode sequence: {hex}")

end Descent.Cursor
