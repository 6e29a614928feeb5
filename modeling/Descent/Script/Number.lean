import Descent.Decimal.Layout
import Descent.Grammar

/-!
# Numbers

A literal that fits in 64 bits as an integer is an integer, and every other one a float. A float is
written without an exponent, since the literal has none.
-/

namespace Descent.Script

/-- The pattern of a number. Its digits are those of all scripts. -/
def numberPattern : BoundRegex :=
  { source := "-?\\d+(?:\\.\\d+)?"
    regex := .seq (.anchor .start) <| .seq (.optional true (.char (.single '-'))) <|
      .seq (.plus true (.char .digits)) <|
      .optional true (.seq (.char (.single '.')) (.plus true (.char .digits))) }

example : (BoundRegex.ofSource numberPattern.source).toOption = some numberPattern := by
  decide +kernel

/-- The integer that a literal denotes, if it has only digits after its sign and fits in 64 bits. -/
def readInteger? (literal : List Char) : Option Int :=
  let value := match literal with
    | '-' :: digits => (Text.decimal? digits).map fun n => -(n : Int)
    | digits => (Text.decimal? digits).map fun n => (n : Int)
  value.filter fun n => -Int.pow 2 63 ≤ n ∧ n < Int.pow 2 63

/-- The value of a literal. Digits outside ASCII and numbers too large have none. -/
def numberValue? (literal : List Char) : Option Json :=
  ((readInteger? literal).map .int).or
    (((Decimal.read? literal).bind Decimal.toBinary64?).map .float)

def numberText : Json → String
  | .int n => toString n
  | .float x => x.literalText
  | _ => ""

/-- A number, perhaps with a minus and a fraction. -/
def number : Production where
  name := "Number"
  starts _ s _ := s.cursor.sees (.regex numberPattern)
  body _ := do
    let literal ← .take (.regex numberPattern) (some "expected a number")
    match numberValue? literal.toList with
    | some value => return .ofList [("value", .scalar value)]
    | none => .fail s!"invalid number: {literal}"
  write _ fields _ := numberText ((fields.scalar? "value").getD .null)

end Descent.Script
