import Descent.Position

/-!
# Failures

Work on a text fails for one of four causes. Only `unexpected` is about the text; the next two are
mistakes of a grammar, and `tooDeep` stops nesting without end.
-/

namespace Descent

/-- A message about a place in a text, with the lines around it. -/
structure Diagnostic where
  message : String
  position : Position
  context : String
deriving DecidableEq, Repr

/-- The full text of a diagnostic: header, context and message. -/
def Diagnostic.text (d : Diagnostic) : String :=
  s!"SyntaxError at line {d.position.line}, column {d.position.column}\n\n{d.context}\n\n" ++
    s!" Message: {d.message}"

/-- Why work on a text failed. -/
inductive Failure
  /-- The text is not what it has to be at this place. -/
  | unexpected (diagnostic : Diagnostic)
  /-- An operation was given an argument that it cannot work with. -/
  | badArgument (message : String)
  /-- An operation was asked for in a state that it cannot work in. -/
  | badState (message : String)
  /-- A node was to be parsed inside as many others as are allowed. -/
  | tooDeep (depth maxDepth : Nat) (diagnostic : Diagnostic)
deriving DecidableEq, Repr

namespace Failure

/-- The causes of failure without their details. -/
inductive Kind
  | unexpected | badArgument | badState | tooDeep
deriving DecidableEq, Repr

def kind : Failure → Kind
  | unexpected _ => .unexpected
  | badArgument _ => .badArgument
  | badState _ => .badState
  | tooDeep .. => .tooDeep

/-- The place in the text and the message about it, for the causes that have one. -/
def diagnostic? : Failure → Option Diagnostic
  | unexpected d => some d
  | tooDeep _ _ d => some d
  | _ => none

/-- Whether a failure is about the text alone. -/
def isUnexpected (f : Failure) : Bool :=
  f.kind == .unexpected

def text : Failure → String
  | unexpected d => d.text
  | badArgument message => "invalid argument: " ++ message
  | badState message => "illegal state: " ++ message
  | tooDeep _ _ d => d.text

end Failure

/-- What an operation on a state gives: an answer or a failure, and the state it leaves either
way. -/
abbrev Outcome (σ α : Type) := Except Failure α × σ

end Descent
