import Descent.Json.Printer
import Descent.Script.Binding

/-!
# The demonstration

Parses a script and prints its fields as JSON, then the script as the grammar writes it.
-/

namespace Descent.Demo

/-- The script of the demonstration if none is given. -/
def sample : String :=
  "let greeting = concat(\"hello\", \"\\u\x7b2c\x7d \", name);\n" ++
  "let answer = 42;\n" ++
  "let ratio = div(answer, -1.5);\n" ++
  "let empty = now();\n"

/-- Why a file cannot be used. -/
inductive ReadError
  | missing | directory | denied | notText
deriving DecidableEq, Repr

/-- What a message says about an unusable file. -/
def ReadError.text : ReadError → String
  | missing => "No such file or directory (os error 2)"
  | directory => "Is a directory (os error 21)"
  | denied => "Permission denied (os error 13)"
  | notText => "stream did not contain valid UTF-8"

/-- What a run leaves: whether it succeeded, and what it printed and complained about. -/
structure Report where
  success : Bool
  output : String
  complaint : String
deriving DecidableEq, Repr

/-- A run on a script. -/
def runText (text : String) : Report :=
  match Script.parse text with
  | (.error e, _) => ⟨false, "", e.text ++ "\n"⟩
  | (.ok id, s) =>
    ⟨true, (s.tree.json id).prettyText ++ "\n\n" ++
      Script.grammar.write s.tree id none ++ "\n", ""⟩

/-- The report on a file that cannot be used. -/
def unusable (path : String) (error : ReadError) : Report :=
  ⟨false, "", s!"cannot read {path}: {error.text}\n"⟩

/-- A run on a file of this content. -/
def runFile (path : String) (content : ByteArray) : Report :=
  match String.fromUTF8? content with
  | some text => runText text
  | none => unusable path .notText

end Descent.Demo
