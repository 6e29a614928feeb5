import Descent.Json.Document
import Descent.Settings

/-!
# Settings as JSON

Settings are written as an object and read from an object or an array. What is left out takes its
default. Names that mean nothing are skipped, a name that means something may come once only.
-/

namespace Descent.Settings

open Json

/-- A limit: an integer literal without a sign that fits in 64 bits. -/
def limit? : Document → Option Nat
  | .number { negative := false, whole, fraction := [], exponent := none } =>
    (Text.decimal? whole).filter (· < Nat.pow 2 64)
  | _ => none

/-- The settings met so far in an object. -/
structure Partial where
  contextLines : Option Nat := none
  maxDepth : Option Nat := none

/-- The settings that were met, and the defaults for the others. -/
def Partial.complete (met : Partial) : Settings :=
  let default : Settings := {}
  { contextLines := met.contextLines.getD default.contextLines
    maxDepth := met.maxDepth.getD default.maxDepth }

/-- Reads one member of an object. -/
def Partial.add? (met : Partial) (name : List Nat) (value : Document) : Option Partial :=
  (Document.text? name).bind fun
    | "context_lines" =>
      if met.contextLines.isSome then none
      else (limit? value).map fun n => { met with contextLines := some n }
    | "max_depth" =>
      if met.maxDepth.isSome then none
      else (limit? value).map fun n => { met with maxDepth := some n }
    | _ => some met

def ofDocument? : Document → Option Settings
  | .object members =>
    (members.foldlM (fun (met : Partial) (name, value) => met.add? name value) {}).map
      Partial.complete
  | .array elements =>
    match elements with
    | [] => some {}
    | [lines] => (limit? lines).map fun n => { contextLines := n }
    | [lines, depth] =>
      (limit? lines).bind fun n => (limit? depth).map fun m => ⟨n, m⟩
    | _ => none
  | _ => none

/-- Reads settings from JSON text. -/
def read? (text : String) : Option Settings :=
  (Document.read? text.toList).bind ofDocument?

def jsonText (s : Settings) : String :=
  "\x7b\"context_lines\":" ++ toString s.contextLines ++
    ",\"max_depth\":" ++ toString s.maxDepth ++ "\x7d"

end Descent.Settings
