import Descent.Settings
import Descent.Word

/-!
# Cursors

A cursor stands between two characters of a text. It keeps what is behind it, the nearest character
first, and what is ahead; moving hands characters from one side to the other, so a cursor never
stands inside a character and never changes its text.
-/

namespace Descent

/-- A place in a text, one saved offset, and the word scanned last. -/
structure Cursor where
  /-- The characters before the cursor, the nearest first. -/
  behind : List Char
  /-- The characters after the cursor. -/
  ahead : List Char
  mark : Option Mark
  /-- A word scanned earlier, so that looking at it and then taking it scans it once. -/
  recalled : Option ScannedWord
  settings : Settings
  /-- What is recalled is what a scan at the same offset finds. -/
  recalled_eq : ∀ word ∈ recalled,
    ScannedWord.at? (behind.reverse ++ ahead) word.start = some word

namespace Cursor

/-- A cursor at the start of a text. -/
def ofText (text : String) : Cursor :=
  { behind := [], ahead := text.toList, mark := none, recalled := none, settings := {}
    recalled_eq := by simp }

/-- A cursor at the start of a text with settings, which have to pass their check. -/
def withSettings (text : String) (settings : Settings) : Except Failure Cursor :=
  settings.check.map fun _ => { ofText text with settings }

def text (c : Cursor) : List Char :=
  c.behind.reverse ++ c.ahead

/-- How many bytes are behind the cursor. -/
def offset (c : Cursor) : Nat :=
  Text.size c.behind

/-- How many bytes the text has. -/
def size (c : Cursor) : Nat :=
  Text.size c.behind + Text.size c.ahead

def next? (c : Cursor) : Option Char :=
  c.ahead.head?

def atEnd (c : Cursor) : Bool :=
  c.ahead.isEmpty

/-- The same cursor at another place of its text. -/
def place (c : Cursor) (behind ahead : List Char) (h : behind.reverse ++ ahead = c.text) : Cursor :=
  { c with behind, ahead, recalled_eq := h ▸ c.recalled_eq }

@[simp] theorem text_place (c : Cursor) (behind ahead : List Char)
    (h : behind.reverse ++ ahead = c.text) : (c.place behind ahead h).text = c.text := h

/-- Moves past the next `n` characters, or past all if there are fewer. -/
def forward (c : Cursor) (n : Nat) : Cursor :=
  c.place ((c.ahead.take n).reverse ++ c.behind) (c.ahead.drop n) (by simp [text])

/-- Moves to a byte offset, if that is between two characters of the text. -/
def moveTo? (c : Cursor) (offset : Nat) : Option Cursor :=
  if c.offset ≤ offset then
    match h : Text.splitAt? (offset - c.offset) c.ahead with
    | some (l, r) => some <| c.place (l.reverse ++ c.behind) r (by
        simp [text, ← Text.append_of_splitAt? h])
    | none => none
  else
    match h : Text.splitAt? (c.offset - offset) c.behind with
    | some (l, r) => some <| c.place r (l.reverse ++ c.ahead) (by
        simp [text, ← Text.append_of_splitAt? h])
    | none => none

/-- Moves to a byte offset, or stays if there is no such place. -/
def moveTo (c : Cursor) (offset : Nat) : Cursor :=
  (c.moveTo? offset).getD c

/-- Moves to a byte offset. One inside a character or past the end is refused. -/
def goTo (c : Cursor) (offset : Nat) : Outcome Cursor Unit :=
  match c.moveTo? offset with
  | some moved => (.ok (), moved)
  | none => (.error (.badArgument
      s!"offset {offset} is not a char boundary of the {c.size}-byte input"), c)

def takeChar (c : Cursor) : Option Char × Cursor :=
  (c.next?, c.forward 1)

/-- Moves past the next `n` characters and says how many there were. -/
def takeChars (c : Cursor) (n : Nat) : Nat × Cursor :=
  ((c.ahead.take n).length, c.forward n)

/-- Moves past the characters in front that satisfy a predicate, and returns them. -/
def takeWhile (c : Cursor) (p : Char → Bool) : String × Cursor :=
  let taken := c.ahead.takeWhile p
  (String.ofList taken, c.forward taken.length)

def dropSpace (c : Cursor) : Cursor :=
  (c.takeWhile Text.isSpace).2

/-- Saves the offset, over the one saved before. -/
def setMark (c : Cursor) : Cursor :=
  { c with mark := some ⟨c.offset⟩ }

/-- Goes back to the saved offset, which stays saved. -/
def goToMark (c : Cursor) : Outcome Cursor Unit :=
  match c.mark with
  | some mark => (.ok (), c.moveTo mark.offset)
  | none => (.error (.badState "checkpoint does not exist"), c)

/-- The word at the cursor, which stays where it is and recalls the word from now on. -/
def scanned (c : Cursor) : ScannedWord × Cursor :=
  match c.recalled.filter (·.start == c.offset) with
  | some word => (word, c)
  | none =>
    let word := ScannedWord.ofText c.offset c.ahead
    (word, { c with
      recalled := some word
      recalled_eq := by
        intro w hw
        obtain rfl : word = w := by simpa using hw
        have h := Text.splitAt?_size c.behind.reverse c.ahead
        rw [Text.size_reverse] at h
        simp [ScannedWord.at?, word, ScannedWord.ofText, offset, h] })

end Cursor
end Descent
