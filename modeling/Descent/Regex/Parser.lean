import Descent.Regex.Bracket
import Descent.Regex.Size
import Descent.Text.Digit

/-!
# Reading regular expressions

The written form: literals, `.`, classes in brackets, the escapes of kinds and of single
characters, groups, alternatives, greedy and lazy repetition, anchors, and the flag `s`, under
which `.` matches the line feed too. A flag holds to the end of its group. Groups, repetitions,
classes, sequences and alternatives may be nested 250 deep, and the expression has to be small
enough.
-/

namespace Descent.Regex

/-- Reads a count, with spaces around it allowed. It has 32 bits. -/
def readCount? (cs : List Char) : Option (Nat × List Char) :=
  let cs := cs.dropWhile Text.isSpace
  let isDigit := fun c => (Text.digit? c).isSome
  ((Text.decimal? (cs.takeWhile isDigit)).filter (· < Nat.pow 2 32)).map fun n =>
    (n, (cs.dropWhile isDigit).dropWhile Text.isSpace)

/-- Reads a counted repetition after its opening brace: the least count, and the greatest if there
is one. -/
def readBounds? (cs : List Char) : Option ((Nat × Option Nat) × List Char) :=
  (readCount? cs).bind fun (least, cs) =>
    match cs with
    | '\x7d' :: cs => some ((least, some least), cs)
    | ',' :: '\x7d' :: cs => some ((least, none), cs)
    | ',' :: cs =>
      (readCount? cs).bind fun (greatest, cs) =>
        match cs with
        | '\x7d' :: cs => if least ≤ greatest then some ((least, some greatest), cs) else none
        | _ => none
    | _ => none

/-- Reads the operator that may follow an expression; `none` inside if there is none. -/
def readOperator? : List Char → Option (Option (Nat × Option Nat) × List Char)
  | '*' :: cs => some (some (0, none), cs)
  | '+' :: cs => some (some (1, none), cs)
  | '?' :: cs => some (some (0, some 1), cs)
  | '\x7b' :: cs => (readBounds? cs).map fun (bounds, cs) => (some bounds, cs)
  | cs => some (none, cs)

/-- Whether a text goes on with a repetition operator. -/
def startsWithOperator : List Char → Bool
  | c :: _ => c == '*' || c == '+' || c == '?' || c == '\x7b'
  | [] => false

/-- The anchor that a character after a backslash stands for. -/
def anchorOf? : Char → Option Anchor
  | 'A' => some .start
  | 'z' => some .stop
  | '<' => some .wordStart
  | '>' => some .wordEnd
  | 'b' => some .wordEdge
  | 'B' => some .noWordEdge
  | _ => none

/-- What a character after a backslash stands for. -/
def escape? (c : Char) : Option Regex :=
  ((anchorOf? c).map .anchor).or <| ((kindOf? c).map .char).or <|
    (escaped? c).map fun c => .char (.single c)

/-- An expression that has been read, and how deep it is nested as it is written. -/
structure Reading where
  regex : Regex
  depth : Nat

namespace Reading

/-- An expression without parts. -/
def leaf (regex : Regex) : Reading := ⟨regex, 0⟩

/-- Several expressions as one. A single one stays as it is. -/
def together (join : List Regex → Regex) : List Reading → Reading
  | [r] => r
  | rs => ⟨join (rs.map (·.regex)), if rs.isEmpty then 0 else (rs.map (·.depth)).foldl max 0 + 1⟩

/-- An expression in a group, or under an operator. -/
def within (change : Regex → Regex) (r : Reading) : Reading :=
  ⟨change r.regex, r.depth + 1⟩

end Reading

/-- Reads all operators after an expression. -/
def readOperators? : Nat → Reading → List Char → Option (Reading × List Char)
  | 0, _, _ => none
  | fuel + 1, r, cs =>
    (readOperator? cs).bind fun
      | (none, cs) => some (r, cs)
      | (some (least, greatest), cs) =>
        let (greedy, cs) := match cs with
          | '?' :: cs => (false, cs)
          | cs => (true, cs)
        readOperators? fuel (r.within (repeated least greatest greedy)) cs

/-- An expression of one place: a class, an anchor or a character. -/
def readAtom? (dotAll : Bool) : List Char → Option (Reading × List Char)
  | '[' :: cs =>
    (readClass? (2 * cs.length + 2) cs).map fun (part, cs) => (⟨char part.set, part.depth⟩, cs)
  | '.' :: cs => some (.leaf (char (.any dotAll)), cs)
  | '^' :: cs => some (.leaf (anchor .start), cs)
  | '$' :: cs => some (.leaf (anchor .stop), cs)
  | '\\' :: c :: cs => (escape? c).map fun r => (.leaf r, cs)
  | '\\' :: [] => none
  | c :: cs => if startsWithOperator [c] then none else some (.leaf (char (.single c)), cs)
  | [] => none

/-- Reads a flag after `(?`: whether `.` matches the line feed. -/
def readFlag? : List Char → Option (Bool × List Char)
  | 's' :: cs => some (true, cs)
  | '-' :: 's' :: cs => some (false, cs)
  | _ => none

mutual

/-- Reads alternatives up to the end of their group. -/
def readBranches? : Nat → Bool → List Char → Option (List Reading × List Char)
  | 0, _, _ => none
  | fuel + 1, dotAll, cs =>
    (readItems? fuel dotAll cs).bind fun
      | (first, dotAll, '|' :: cs) =>
        (readBranches? fuel dotAll cs).map fun (others, cs) =>
          (.together concat first :: others, cs)
      | (first, _, cs) => some ([.together concat first], cs)

/-- Reads the parts of one alternative, and the flag as it is after them. -/
def readItems? : Nat → Bool → List Char → Option (List Reading × Bool × List Char)
  | 0, _, _ => none
  | _ + 1, dotAll, [] => some ([], dotAll, [])
  | _ + 1, dotAll, '|' :: cs => some ([], dotAll, '|' :: cs)
  | _ + 1, dotAll, ')' :: cs => some ([], dotAll, ')' :: cs)
  | fuel + 1, dotAll, cs =>
    match cs with
    | '(' :: '?' :: inside =>
      match readFlag? inside with
      | some (dotAll, ')' :: cs) =>
        if startsWithOperator cs then none
        else (readItems? fuel dotAll cs).map fun (parts, dotAll, cs) =>
          (.leaf empty :: parts, dotAll, cs)
      | some (inner, ':' :: inside) => readGroup? fuel dotAll inner id inside
      | some _ => none
      | none => match inside with
        | ':' :: inside => readGroup? fuel dotAll dotAll id inside
        | _ => none
    | '(' :: inside => readGroup? fuel dotAll dotAll (group inside.length) inside
    | cs =>
      (readAtom? dotAll cs).bind fun (atom, cs) => readRest? fuel dotAll atom cs

/-- Reads a group after what opens it, and what follows in the alternative around it. -/
def readGroup? : Nat → Bool → Bool → (Regex → Regex) → List Char →
    Option (List Reading × Bool × List Char)
  | 0, _, _, _, _ => none
  | fuel + 1, dotAll, inner, mark, cs =>
    (readBranches? fuel inner cs).bind fun
      | (branches, ')' :: cs) =>
        readRest? fuel dotAll ((Reading.together alternatives branches).within mark) cs
      | _ => none

/-- Reads the operators after an expression, then the rest of the alternative. -/
def readRest? : Nat → Bool → Reading → List Char → Option (List Reading × Bool × List Char)
  | 0, _, _, _ => none
  | fuel + 1, dotAll, r, cs =>
    (readOperators? (cs.length + 1) r cs).bind fun (part, cs) =>
      (readItems? fuel dotAll cs).map fun (parts, dotAll, cs) => (part :: parts, dotAll, cs)

end

/-- How deep an expression may be nested. -/
def depthLimit : Nat := 250

/-- Reads a regular expression; `none` if it is not one, or is nested too deep or too large. -/
def read? (source : List Char) : Option Regex :=
  match readBranches? (3 * source.length + 3) false source with
  | some (branches, []) =>
    let r := Reading.together alternatives branches
    if r.depth ≤ depthLimit ∧ r.regex.fits then some r.regex else none
  | _ => none

end Descent.Regex
