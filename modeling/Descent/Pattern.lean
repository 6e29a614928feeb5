import Descent.Failure
import Descent.Regex.Match
import Descent.Regex.Parser
import Descent.Text.Size

/-!
# Patterns

What is looked for at a place of a text: a literal, a regular expression, or a production of a
grammar by name. The text alone says nothing about productions.
-/

namespace Descent

/-- A regular expression bound to the place it is tried at, with its source for messages. -/
structure BoundRegex where
  source : String
  regex : Regex
deriving DecidableEq, Repr

namespace BoundRegex

/-- Reads a source. It is bound by writing it into a group after `^`, so a source that closes this
group itself is not wholly bound. -/
def ofSource (source : String) : Except Failure BoundRegex :=
  match Regex.read? (['^', '(', '?', ':'] ++ source.toList ++ [')']) with
  | some regex => .ok ⟨source, regex⟩
  | none => .error (.badArgument s!"invalid pattern /{source}/")

/-- The source between slashes. -/
def text (b : BoundRegex) : String :=
  "/" ++ b.source ++ "/"

/-- How many characters there are up to the end of the match. -/
def extent? (b : BoundRegex) (cs : List Char) : Option Nat :=
  (b.regex.find? cs).map (·.stop)

end BoundRegex

/-- What is looked for at a place. -/
inductive Pattern
  | literal (text : String)
  | regex (bound : BoundRegex)
  | production (name : String)
deriving DecidableEq, Repr

namespace Pattern

/-- How a message names a pattern. -/
def text : Pattern → String
  | literal s => s
  | regex b => b.text
  | production name => name

/-- How many characters a pattern takes from the front of a text, if it matches there. -/
def extent? (p : Pattern) (cs : List Char) : Except Failure (Option Nat) :=
  match p with
  | literal s => .ok (if s.toList.isPrefixOf cs then some s.toList.length else none)
  | regex b => .ok (b.extent? cs)
  | production name => .error (.badArgument
      s!"node pattern {name} needs a driver, use a literal or regex pattern here")

/-- The same extent in bytes. -/
def size? (p : Pattern) (cs : List Char) : Except Failure (Option Nat) :=
  (p.extent? cs).map fun extent => extent.map fun n => Text.size (cs.take n)

end Pattern
end Descent
