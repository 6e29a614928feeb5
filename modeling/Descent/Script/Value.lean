import Descent.Script.Name
import Descent.Script.Number
import Descent.Script.Text

/-!
# Expressions and calls

An expression is a text, a number, a call or a name. A call begins as a name does, so a name is
parsed first; if a parenthesis follows it, the session goes back and parses a call.
-/

namespace Descent.Script

def openPattern : BoundRegex :=
  { source := "\\s*\\("
    regex := .seq (.anchor .start) (.seq (.star true (.char .spaces)) (.char (.single '('))) }

example : (BoundRegex.ofSource openPattern.source).toOption = some openPattern := by
  decide +kernel

def callPattern : BoundRegex :=
  { source := "[A-Za-z_][A-Za-z0-9_]*\\s*\\("
    regex := .seq (.anchor .start) <| .seq (.char nameStart) <|
      .seq (.star true (.char namePart)) <|
      .seq (.star true (.char .spaces)) (.char (.single '(')) }

example : (BoundRegex.ofSource callPattern.source).toOption = some callPattern := by
  decide +kernel

/-- A call: a name and expressions in parentheses. -/
def call : Production where
  name := "Call"
  starts _ s _ := s.cursor.sees (.regex callPattern)
  body options := do
    let name ← .parse "Identifier" options
    .dropSpace
    let _ ← .take (.literal "(") none
    .dropSpace
    let args ← if ← .sees (.literal ")") then pure [] else .commaList "Expression" options
    .dropSpace
    let _ ← .take (.literal ")") none
    return .ofList [("name", .node name), ("args", .list args)]
  write child fields options :=
    fields.nodeText child options "name" ++ "(" ++
      ", ".intercalate (fields.listTexts child options "args") ++ ")"

/-- The names of the part of an expression, one of which is set. -/
def alternatives : List String := ["text", "number", "call", "identifier"]

def expression : Production where
  name := "Expression"
  starts sees _ options := do
    if ← sees (.production "Text") options then return true
    if ← sees (.production "Number") options then return true
    sees (.production "Identifier") options
  body options := do
    if ← .seesProduction "Text" options then
      return .ofList [("text", .node (← .parse "Text" options))]
    else if ← .seesProduction "Number" options then
      return .ofList [("number", .node (← .parse "Number" options))]
    else if ← .seesProduction "Identifier" options then
      let name ← .parse "Identifier" options
      if ← .sees (.regex openPattern) then
        .rewind name
        return .ofList [("call", .node (← .parse "Call" options))]
      else return .ofList [("identifier", .node name)]
    else .fail "expected an expression"
  write child fields options :=
    match alternatives.findSome? fields.node? with
    | some id => child id options
    | none => ""

end Descent.Script
