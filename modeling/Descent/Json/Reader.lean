import Descent.Decimal.Basic
import Descent.Json.Basic
import Descent.Json.Document

/-!
# Reading JSON values

The value that a document denotes. An integer literal within 64 bits is an integer; every other
number is a float, and so is minus zero.
-/

namespace Descent.Json

/-- The value of a number literal; `none` if it is too large for a float. -/
def NumberLiteral.value? (literal : NumberLiteral) : Option Json :=
  let { negative, whole, fraction, exponent } := literal
  let float? := ((Decimal.ofParts? negative whole fraction (exponent.getD 0)).bind
    Decimal.toBinary64?).map Json.float
  if fraction.isEmpty && exponent.isNone then
    match Text.decimal? whole, negative with
    | some n, false => if n < Nat.pow 2 64 then some (.int n) else float?
    | some n, true => if 0 < n ∧ n ≤ Nat.pow 2 63 then some (.int (-n)) else float?
    | none, _ => none
  else float?

mutual

/-- The value of a document; `none` if it has a number too large or half a surrogate pair. -/
def ofDocument? : Document → Option Json
  | .null => some .null
  | .bool b => some (.bool b)
  | .number literal => literal.value?
  | .string codePoints => (Document.text? codePoints).map .string
  | .array elements => (ofElements? elements).map .array
  | .object members => (ofMembers? members).map ofMembers

def ofElements? : List Document → Option (List Json)
  | [] => some []
  | d :: ds => (ofDocument? d).bind fun j => (ofElements? ds).map (j :: ·)

def ofMembers? : List (List Nat × Document) → Option (List (String × Json))
  | [] => some []
  | (name, d) :: ds =>
    (Document.text? name).bind fun n => (ofDocument? d).bind fun j =>
      (ofMembers? ds).map ((n, j) :: ·)

end

/-- Reads a JSON text. -/
def read? (text : String) : Option Json :=
  (Document.read? text.toList).bind ofDocument?

end Descent.Json
