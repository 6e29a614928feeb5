import Descent.Grammar
import Descent.Text.Space

/-!
# Text literals

A text literal stands between double quotes. Inside, a backslash begins an escape: `\n`, `\t`, `\"`,
`\\`, or `\u` with a hexadecimal code point in braces. Everything else stands for itself.
-/

namespace Descent.Script

def plainPattern : BoundRegex :=
  { source := "[^\"\\\\]+"
    regex := .seq (.anchor .start) (.plus true (.char (CharSet.ofList ['"', '\\']).complement)) }

example : (BoundRegex.ofSource plainPattern.source).toOption = some plainPattern := by
  decide +kernel

/-- The pattern of what an escape has between its braces. -/
def bracedPattern : BoundRegex :=
  { source := "[^\x7d\"]*"
    regex := .seq (.anchor .start)
      (.star true (.char (CharSet.ofList ['\x7d', '"']).complement)) }

example : (BoundRegex.ofSource bracedPattern.source).toOption = some bracedPattern := by
  decide +kernel

/-- The escapes of one character and what they stand for. -/
def escapes : List (String × Char) :=
  [("\\n", '\n'), ("\\t", '\t'), ("\\\"", '"'), ("\\\\", '\\')]

def readEscape : List (String × Char) → Program (Option Char)
  | [] => return none
  | (escape, c) :: rest => do
    match ← .take? (.literal escape) with
    | some _ => return some c
    | none => readEscape rest

/-- Reads an item of a literal and returns what it stands for, or `none` at the closing quote. -/
def readItem : Program (Option String) := do
  match ← .take? (.regex plainPattern) with
  | some plain => return some plain
  | none =>
  match ← .take? (.literal "\"") with
  | some _ => return none
  | none =>
  match ← .take? (.literal "\\u\x7b") with
  | some _ =>
    let hex ← .take (.regex bracedPattern) none
    let _ ← .take (.literal "\x7d") (some "unterminated unicode escape")
    let c ← .decode hex
    return some c.toString
  | none =>
  match ← readEscape escapes with
  | some c => return some c.toString
  | none =>
    if (← .state).cursor.atEnd then .fail "unterminated text"
    else .fail "invalid escape sequence"

/-- Reads items to the closing quote. Each takes a character, so the length of the text is enough
fuel. -/
def readItems : Nat → String → Program String
  | 0, _ => .fail "unterminated text"
  | fuel + 1, value => do
    match ← readItem with
    | some item => readItems fuel (value ++ item)
    | none => return value

/-- How a character is written. Controls are escaped, and with `ascii` all outside ASCII. -/
def encodeChar (ascii : Bool) (c : Char) : String :=
  match c with
  | '"' => "\\\""
  | '\\' => "\\\\"
  | '\n' => "\\n"
  | '\t' => "\\t"
  | c =>
    if Text.isControl c || (ascii && 0x80 ≤ c.toNat) then
      "\\u\x7b" ++ Text.hex c.toNat ++ "\x7d"
    else c.toString

def encode (ascii : Bool) (s : String) : String :=
  "\"" ++ String.join (s.toList.map (encodeChar ascii)) ++ "\""

def text : Production where
  name := "Text"
  starts _ s _ := s.cursor.sees (.literal "\"")
  body _ := do
    let _ ← .take (.literal "\"") none
    let value ← readItems ((← .state).cursor.ahead.length + 1) ""
    return .ofList [("value", .string value)]
  write _ fields options := encode (Options.flag options "ascii") (fields.text "value")

end Descent.Script
