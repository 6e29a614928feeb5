import Descent.Decimal.Layout
import Descent.Json.Basic
import Descent.Text.Digit

/-!
# Writing JSON values

Two layouts: compact, without any blank, and indented, one element or member a line. Members come
sorted by name.
-/

namespace Descent.Json

/-- A character inside a string. Only quotes, backslashes and the controls below space change. -/
def escapeChar (c : Char) : String :=
  match c with
  | '"' => "\\\""
  | '\\' => "\\\\"
  | '\x08' => "\\b"
  | '\t' => "\\t"
  | '\n' => "\\n"
  | '\x0c' => "\\f"
  | '\r' => "\\r"
  | c =>
    if c.toNat < 0x10 then "\\u000" ++ Text.hex c.toNat
    else if c.toNat < 0x20 then "\\u00" ++ Text.hex c.toNat
    else c.toString

/-- A string with its quotes. -/
def stringText (s : String) : String :=
  "\"" ++ String.join (s.toList.map escapeChar) ++ "\""

def scalarText : Json → String
  | null => "null"
  | bool b => if b then "true" else "false"
  | int n => toString n
  | float x => x.dataText
  | string s => stringText s
  | array _ | object _ => ""

mutual

/-- The compact text of a value. -/
def text : Json → String
  | array elements => "[" ++ ",".intercalate (elementTexts elements) ++ "]"
  | object members => "\x7b" ++ ",".intercalate (memberTexts members) ++ "\x7d"
  | scalar => scalar.scalarText

def elementTexts : List Json → List String
  | [] => []
  | j :: js => text j :: elementTexts js

def memberTexts : List (String × Json) → List String
  | [] => []
  | (name, j) :: js => (stringText name ++ ":" ++ text j) :: memberTexts js

end

/-- The blanks at the start of a line at a nesting level. -/
def indent (level : Nat) : String :=
  String.ofList (List.replicate (2 * level) ' ')

/-- Items between brackets, each on a line of its own one level deeper than the brackets. -/
def lined (level : Nat) (opening closing : String) (items : List String) : String :=
  if items.isEmpty then opening ++ closing
  else
    opening ++ "\n" ++ ",\n".intercalate (items.map (indent (level + 1) ++ ·)) ++ "\n" ++
      indent level ++ closing

mutual

/-- The indented text of a value that stands at a nesting level. -/
def indentedText (level : Nat) : Json → String
  | array elements => lined level "[" "]" (indentedElements (level + 1) elements)
  | object members => lined level "\x7b" "\x7d" (indentedMembers (level + 1) members)
  | scalar => scalar.scalarText

def indentedElements (level : Nat) : List Json → List String
  | [] => []
  | j :: js => indentedText level j :: indentedElements level js

def indentedMembers (level : Nat) : List (String × Json) → List String
  | [] => []
  | (name, j) :: js =>
    (stringText name ++ ": " ++ indentedText level j) :: indentedMembers level js

end

/-- The indented text of a value. -/
def prettyText (json : Json) : String :=
  json.indentedText 0

end Descent.Json
