import Descent.Proofs.Cursor.Span
import Descent.Proofs.Text.Boundary

/-!
# Cursors as byte offsets

* `Cursor.Pointer`: a text and a byte offset into it, and the other offsets that a cursor keeps;
* `Pointer.perform?`: actions by byte arithmetic alone.

An action of a pointer cuts the text where it needs a part of it. It fails if a cut is not at a
boundary, an index is past the end of a list, or a subtraction goes below zero.
-/

namespace Descent.Cursor

/-- A text, a byte offset into it, a saved offset, and a scanned word with its two offsets. -/
structure Pointer where
  text : List Char
  offset : Nat
  mark : Option Mark
  recalled : Option ScannedWord
  settings : Settings

/-- A cursor as a byte offset into its text. -/
def pointer (c : Cursor) : Pointer :=
  ⟨c.text, c.offset, c.mark, c.recalled, c.settings⟩

/-! ## Actions by byte arithmetic -/

namespace Pointer

/-- A difference, if it is not below zero. -/
def minus? (m n : Nat) : Option Nat :=
  if n ≤ m then some (m - n) else none

/-- The elements of a list from one index up to another, if the list has them. -/
def range? {α : Type} (start stop : Nat) (xs : List α) : Option (List α) :=
  if start ≤ stop ∧ stop ≤ xs.length then some ((xs.drop start).take (stop - start)) else none

def rest? (p : Pointer) : Option (List Char) :=
  Text.from? p.offset p.text

def next? (p : Pointer) : Option (Option Char) :=
  p.rest?.map (·.head?)

def takeChar? (p : Pointer) : Option (Option Char × Pointer) := do
  match ← p.next? with
  | some c => return (some c, { p with offset := p.offset + c.utf8Size })
  | none => return (none, p)

/-- Takes characters one by one until there have been `n` or there are no more. -/
def takeChars? : Nat → Pointer → Option (Nat × Pointer)
  | 0, p => some (0, p)
  | n + 1, p => do
    match ← p.takeChar? with
    | (some _, p) =>
      let (count, p) ← takeChars? n p
      return (count + 1, p)
    | (none, p) => return (0, p)

/-- Moves to an offset that has to be a boundary. -/
def moveTo? (p : Pointer) (offset : Nat) : Option Pointer :=
  if (Text.splitAt? offset p.text).isSome then some { p with offset } else none

def goTo (p : Pointer) (offset : Nat) : Outcome Pointer Unit :=
  match p.moveTo? offset with
  | some moved => (.ok (), moved)
  | none => (.error (.badArgument
      s!"offset {offset} is not a char boundary of the {Text.size p.text}-byte input"), p)

/-- Takes the characters in front that satisfy a predicate, which may depend on their offset. -/
def takeWhile? (p : Pointer) (q : Nat → Char → Bool) : Option (String × Pointer) := do
  let stop ← Text.pass? q p.text p.offset
  let taken ← Text.slice? p.offset stop p.text
  return (String.ofList taken, { p with offset := stop })

def dropSpace? (p : Pointer) : Option Pointer := do
  return { p with offset := ← Text.skip? Text.isSpace p.offset p.text }

/-- Goes back to the saved offset, whatever it is. -/
def goToMark (p : Pointer) : Outcome Pointer Unit :=
  match p.mark with
  | some mark => (.ok (), { p with offset := mark.offset })
  | none => (.error (.badState "checkpoint does not exist"), p)

def scanned? (p : Pointer) : Option (ScannedWord × Pointer) :=
  match p.recalled.filter (·.start == p.offset) with
  | some word => some (word, p)
  | none => do
    let first ← Text.skip? Text.isSpace p.offset p.text
    let last ← Text.skip? Word.has first p.text
    let stop ← Text.skip? Text.isSpace last p.text
    let found ← Text.slice? first last p.text
    let word : ScannedWord := ⟨p.offset, stop, String.ofList (found.map Char.toLower)⟩
    return (word, { p with recalled := some word })

def takeWord? (p : Pointer) : Option (String × Pointer) := do
  let (scanned, p) ← p.scanned?
  return (scanned.word, ← p.moveTo? scanned.stop)

def seesWord? (p : Pointer) (expected : Option String) : Option (Bool × Pointer) :=
  match expected with
  | none => do return ((← p.next?).any Word.has, p)
  | some expected => do
    let (scanned, p) ← p.scanned?
    return (scanned.word == Word.lower expected, p)

def position? (p : Pointer) : Option Position := do
  let before ← Text.upTo? p.offset p.text
  let breaks := Text.breaks before
  if (← p.next?).any Text.isBreak then return ⟨breaks.count + 1, 0, p.offset⟩
  let line ← Text.from? breaks.lineStart before
  let column := if breaks.count = 0 then line.length else line.length + 1
  return ⟨breaks.count + 1, column, p.offset⟩

def window? (p : Pointer) (count : Nat) : Option (Except Failure Window) :=
  if count % 2 = 0 then some (.error (.badArgument "lines count should be odd"))
  else do
    let lines ← Text.lines? p.text
    let current := min (← minus? (← p.position?).line 1) (← minus? lines.length 1)
    let size := min count lines.length
    let start := min (current - count / 2) (← minus? lines.length size)
    let shown ← range? start (start + size) lines
    return .ok ⟨shown.map String.ofList, ← minus? current start⟩

def diagnostic? (p : Pointer) (message : String) : Option Diagnostic := do
  let position ← p.position?
  let context := match ← p.window? p.settings.contextLines with
    | .ok window => window.text position.line
    | .error _ => ""
  return ⟨message, position, context⟩

def unexpected? (p : Pointer) (message : String) : Option Failure :=
  (p.diagnostic? message).map .unexpected

/-- How many bytes a pattern matches at the front of a text. A literal matches all of its own. -/
def matchSize? (pattern : Pattern) (cs : List Char) : Except Failure (Option Nat) :=
  match pattern with
  | .literal s => .ok (if s.toList.isPrefixOf cs then some s.utf8ByteSize else none)
  | pattern => pattern.size? cs

def sees? (p : Pointer) (pattern : Pattern) : Option (Except Failure Bool) := do
  return (matchSize? pattern (← p.rest?)).map (·.isSome)

/-- Takes as many bytes as a pattern matches. -/
def tryTake? (p : Pointer) (pattern : Pattern) : Option (Outcome Pointer (Option String)) := do
  let rest ← p.rest?
  match matchSize? pattern rest with
  | .error e => return (.error e, p)
  | .ok none => return (.ok none, p)
  | .ok (some size) =>
    let matched ← Text.upTo? size rest
    return (.ok (some (String.ofList matched)), ← p.moveTo? (p.offset + size))

def take? (p : Pointer) (pattern : Pattern) (message : Option String) :
    Option (Outcome Pointer String) := do
  match ← p.tryTake? pattern with
  | (.error e, p) => return (.error e, p)
  | (.ok (some matched), p) => return (.ok matched, p)
  | (.ok none, p) =>
    return (.error (← p.unexpected? (message.getD s!"expected: {pattern.text}")), p)

def takeThisWord? (p : Pointer) (expected : Option String) : Option (Outcome Pointer String) := do
  let (word, after) ← p.takeWord?
  match wordFault? expected word with
  | none => return (.ok word, after)
  | some message =>
    let back ← after.moveTo? p.offset
    return (.error (← back.unexpected? message), back)

def decode? (p : Pointer) (hex : String) : Option (Except Failure Char) :=
  match codePoint? hex with
  | some ch => some (.ok ch)
  | none => (p.unexpected? s!"invalid unicode sequence: {hex}").map .error

/-- Does what an action says by byte arithmetic. -/
def perform? (p : Pointer) : (a : Action) → Option (Outcome Pointer a.Answer)
  | .next => do return (.ok (← p.next?), p)
  | .takeChar => do
    let (c, p) ← p.takeChar?
    return (.ok c, p)
  | .takeChars n => do
    let (count, p) ← p.takeChars? n
    return (.ok count, p)
  | .goTo offset => some (p.goTo offset)
  | .takeWhile q => do
    let (taken, p) ← p.takeWhile? fun _ => q
    return (.ok taken, p)
  | .dropSpace => do return (.ok (), ← p.dropSpace?)
  | .setMark => some (.ok (), { p with mark := some ⟨p.offset⟩ })
  | .goToMark => some p.goToMark
  | .sees pattern => do return (← p.sees? pattern, p)
  | .seesWord expected => do
    let (answer, p) ← p.seesWord? expected
    return (.ok answer, p)
  | .takeWord => do
    let (word, p) ← p.takeWord?
    return (.ok word, p)
  | .take? pattern => p.tryTake? pattern
  | .take pattern message => p.take? pattern message
  | .takeThisWord expected => p.takeThisWord? expected
  | .decode hex => do return (← p.decode? hex, p)
  | .position => do return (.ok (← p.position?), p)
  | .window count => do return (← p.window? count, p)
  | .diagnostic message => do return (.ok (← p.diagnostic? message), p)
  | .fail message => do return (.error (← p.unexpected? message), p)

end Pointer
end Descent.Cursor
