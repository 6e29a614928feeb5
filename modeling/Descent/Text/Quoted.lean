import Descent.Text.Digit
import Descent.Text.Space

/-!
# Quoted text

How a message shows a source text: between double quotes, on one line, with every character that
would not be seen written as an escape.
-/

namespace Descent.Text

/-- A character inside a quoted text. -/
def quoteChar (c : Char) : String :=
  match c with
  | '\t' => "\\t"
  | '\r' => "\\r"
  | '\n' => "\\n"
  | '"' => "\\\""
  | '\\' => "\\\\"
  | '\x00' => "\\0"
  | ' ' => " "
  | c => if isControl c || isSpace c then "\\u\x7b" ++ hex c.toNat ++ "\x7d" else c.toString

/-- A text between double quotes, on one line. -/
def quote (s : String) : String :=
  "\"" ++ String.join (s.toList.map quoteChar) ++ "\""

end Descent.Text
