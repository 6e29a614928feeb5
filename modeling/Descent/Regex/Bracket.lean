import Descent.Regex.CharSet

/-!
# Reading classes

A class stands in brackets: characters, ranges, escapes, named classes and classes in brackets of
their own, all of them together, or all but them after `^`. Between two such parts `&&`, `--` and
`~~` take what both have, what only the first has and what only one has; they are applied from the
left.
-/

namespace Descent.Regex

/-- The set that a letter after a backslash names; a capital stands for all others. -/
def kindOf? : Char → Option CharSet
  | 'd' => some .digits
  | 'D' => some CharSet.digits.complement
  | 's' => some .spaces
  | 'S' => some CharSet.spaces.complement
  | 'w' => some .words
  | 'W' => some CharSet.words.complement
  | _ => none

/-- The single character that a character after a backslash stands for. Punctuation stands for
itself. -/
def escaped? : Char → Option Char
  | 'n' => some '\n'
  | 'r' => some '\r'
  | 't' => some '\t'
  | 'a' => some '\x07'
  | 'f' => some '\x0c'
  | 'v' => some '\x0b'
  | c => if c.toNat < 0x80 ∧ ¬c.isAlphanum ∧ c ≠ '<' ∧ c ≠ '>' then some c else none

/-- The ranges of ASCII that a name stands for. -/
def namedRanges? (name : List Char) : Option (List (Char × Char)) :=
  match String.ofList name with
  | "alnum" => some [('0', '9'), ('A', 'Z'), ('a', 'z')]
  | "alpha" => some [('A', 'Z'), ('a', 'z')]
  | "ascii" => some [('\x00', '\x7f')]
  | "blank" => some [('\t', '\t'), (' ', ' ')]
  | "cntrl" => some [('\x00', '\x1f'), ('\x7f', '\x7f')]
  | "digit" => some [('0', '9')]
  | "graph" => some [('!', '~')]
  | "lower" => some [('a', 'z')]
  | "print" => some [(' ', '~')]
  | "punct" => some [('!', '/'), (':', '@'), ('[', '\x60'), ('\x7b', '~')]
  | "space" => some [('\t', '\r'), (' ', ' ')]
  | "upper" => some [('A', 'Z')]
  | "word" => some [('0', '9'), ('A', 'Z'), ('_', '_'), ('a', 'z')]
  | "xdigit" => some [('0', '9'), ('A', 'F'), ('a', 'f')]
  | _ => none

/-- Reads a named class after its `[:`. -/
def readNamed? (cs : List Char) : Option (CharSet × List Char) :=
  let (negated, cs) := match cs with
    | '^' :: cs => (true, cs)
    | cs => (false, cs)
  match cs.dropWhile (· != ':') with
  | ':' :: ']' :: rest =>
    (namedRanges? (cs.takeWhile (· != ':'))).map fun ranges =>
      let set := CharSet.unionOf (ranges.map fun (low, high) => .range low high)
      (if negated then set.complement else set, rest)
  | _ => none

/-- One end of a range, or an item by itself. -/
inductive ClassItem
  | single (c : Char)
  | kind (set : CharSet)

def ClassItem.set : ClassItem → CharSet
  | single c => .single c
  | kind set => set

/-- Reads one end of a range, or an item by itself. -/
def readItem? : List Char → Option (ClassItem × List Char)
  | [] => none
  | '\\' :: c :: cs =>
    (((kindOf? c).map .kind).or ((escaped? c).map .single)).map (·, cs)
  | '\\' :: [] => none
  | c :: cs => some (.single c, cs)

/-- Reads an item or a range. A hyphen before the closing bracket or another hyphen makes no
range. -/
def readRange? (cs : List Char) : Option (CharSet × List Char) :=
  (readItem? cs).bind fun (item, cs) =>
    match cs with
    | '-' :: ']' :: _ | '-' :: '-' :: _ => some (item.set, cs)
    | '-' :: cs =>
      (readItem? cs).bind fun (high, cs) =>
        match item, high with
        | .single low, .single high => if low ≤ high then some (.range low high, cs) else none
        | _, _ => none
    | cs => some (item.set, cs)

/-- A part of a class, and how deep brackets and operations are nested in it. -/
structure ClassPart where
  set : CharSet
  depth : Nat

namespace ClassPart

/-- All characters of some parts. -/
def together : List ClassPart → ClassPart
  | [part] => part
  | parts => ⟨.unionOf (parts.map (·.set)), if parts.isEmpty then 0 else
      (parts.map (·.depth)).foldl max 0 + 1⟩

/-- Two parts joined by an operation. -/
def joined (operation : CharSet → CharSet → CharSet) (left right : ClassPart) : ClassPart :=
  ⟨operation left.set right.set, max left.depth right.depth + 1⟩

end ClassPart

/-- The operation that two characters stand for. -/
def operation? : Char → Char → Option (CharSet → CharSet → CharSet)
  | '&', '&' => some .inter
  | '-', '-' => some .diff
  | '~', '~' => some fun s t => (s.union t).diff (s.inter t)
  | _, _ => none

mutual

/-- Reads a class after its opening bracket. Hyphens in front are literal, and so is a closing
bracket where there is no item yet. -/
def readClass? : Nat → List Char → Option (ClassPart × List Char)
  | 0, _ => none
  | fuel + 1, cs =>
    let (negated, cs) := match cs with
      | '^' :: cs => (true, cs)
      | cs => (false, cs)
    let hyphens := cs.takeWhile (· == '-')
    let cs := cs.dropWhile (· == '-')
    let (front, cs) := match hyphens, cs with
      | [], ']' :: cs => ([']'], cs)
      | hyphens, cs => (hyphens, cs)
    (readParts? fuel id (front.map fun c => ⟨.single c, 0⟩) cs).map fun (part, cs) =>
      (⟨if negated then part.set.complement else part.set, part.depth + 1⟩, cs)

/-- Reads the parts of a class up to its closing bracket. Those since the last operation are given,
the last in front, and what the operations before them do with their union. -/
def readParts? : Nat → (ClassPart → ClassPart) → List ClassPart → List Char →
    Option (ClassPart × List Char)
  | 0, _, _, _ => none
  | _ + 1, _, _, [] => none
  | _ + 1, finish, parts, ']' :: cs => some (finish (.together parts), cs)
  | fuel + 1, finish, parts, '[' :: cs =>
    let named := match cs with
      | ':' :: cs => readNamed? cs
      | _ => none
    match named with
    | some (set, cs) => readParts? fuel finish (⟨set, 0⟩ :: parts) cs
    | none =>
      (readClass? fuel cs).bind fun (part, cs) => readParts? fuel finish (part :: parts) cs
  | fuel + 1, finish, parts, c :: cs =>
    match cs.head?.bind (operation? c) with
    | some operation =>
      readParts? fuel (ClassPart.joined operation (finish (.together parts))) [] cs.tail
    | none =>
      (readRange? (c :: cs)).bind fun (set, cs) => readParts? fuel finish (⟨set, 0⟩ :: parts) cs

end

end Descent.Regex
