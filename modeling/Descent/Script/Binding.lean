import Descent.Session.Parse
import Descent.Script.Value

/-!
# Bindings and scripts

A binding gives a name to an expression; a script is bindings to the end of the text.
-/

namespace Descent.Script

/-- A binding `let name = expression;`. -/
def letBinding : Production where
  name := "Let"
  starts _ s _ := .ok (s.cursor.seesWord (some "let")).1
  body options := do
    let _ ← .takeThisWord (some "let")
    let name ← .parse "Identifier" options
    .dropSpace
    let _ ← .take (.literal "=") none
    .dropSpace
    let value ← .parse "Expression" options
    .dropSpace
    let _ ← .take (.literal ";") none
    return .ofList [("name", .node name), ("value", .node value)]
  write child fields options :=
    "let " ++ fields.nodeText child options "name" ++ " = " ++
      fields.nodeText child options "value" ++ ";"

/-- A script: any number of bindings, and nothing after them but space. -/
def script : Production where
  name := "Script"
  starts _ _ _ := .ok true
  body options := do
    let statements ← .series "Let" options
    .dropSpace
    if (← .state).cursor.atEnd then return .ofList [("statements", .list statements)]
    else .fail "expected word: let"
  write child fields options := "\n".intercalate (fields.listTexts child options "statements")

def grammar : Grammar :=
  ⟨[identifier, number, text, call, expression, letBinding, script], by decide⟩

example : Grammar.ofList grammar.productions = .ok grammar := by rfl

/-- Parses a whole text as a script. -/
def parse (text : String) : Outcome Session NodeId :=
  Session.parse grammar "Script" none (.ofText text grammar)

end Descent.Script
