import Descent.Grammar

/-!
# Names

A name is a letter or underscore and any number of letters, digits and underscores, all of ASCII.
-/

namespace Descent.Script

/-- The characters that can begin a name. -/
def nameStart : CharSet :=
  .unionOf [.range 'A' 'Z', .range 'a' 'z', .single '_']

/-- The characters that can continue a name. -/
def namePart : CharSet :=
  .unionOf [.range 'A' 'Z', .range 'a' 'z', .range '0' '9', .single '_']

def namePattern : BoundRegex :=
  { source := "[A-Za-z_][A-Za-z0-9_]*"
    regex := .seq (.anchor .start) (.seq (.char nameStart) (.star true (.char namePart))) }

example : (BoundRegex.ofSource namePattern.source).toOption = some namePattern := by
  decide +kernel

/-- A name. Case counts, and the space after it is left. -/
def identifier : Production where
  name := "Identifier"
  starts _ s _ := s.cursor.sees (.regex namePattern)
  body _ := do
    let name ← .take (.regex namePattern) (some "expected an identifier")
    return .ofList [("name", .string name)]
  write _ fields _ := fields.text "name"

end Descent.Script
