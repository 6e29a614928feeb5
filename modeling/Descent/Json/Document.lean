import Descent.Text.Digit

/-!
# JSON documents

A document is what a JSON text says before it is given a meaning: numbers are literals, strings are
lists of code points in which surrogates may stand alone, and the members of an object come in
their order, repeated names included.
-/

namespace Descent.Json

/-- A number as written. An empty fraction and an absent exponent make it an integer literal. -/
structure NumberLiteral where
  negative : Bool
  whole : List Char
  fraction : List Char
  exponent : Option Int
deriving DecidableEq, Repr

/-- A JSON text as a tree. -/
inductive Document
  | null
  | bool (value : Bool)
  | number (literal : NumberLiteral)
  | string (codePoints : List Nat)
  | array (elements : List Document)
  | object (members : List (List Nat × Document))

namespace Document

/-- Joins each surrogate pair; `none` if a surrogate stands alone. -/
def decode? : List Nat → Option (List Char)
  | [] => some []
  | [n] => if h : n.isValidChar then some [Char.ofNatAux n h] else none
  | high :: low :: rest =>
    if h : high.isValidChar then (decode? (low :: rest)).map (Char.ofNatAux high h :: ·)
    else if 0xD800 ≤ high ∧ high < 0xDC00 ∧ 0xDC00 ≤ low ∧ low < 0xE000 then
      (decode? rest).map (Char.ofNat (0x10000 + (high - 0xD800) * 0x400 + (low - 0xDC00)) :: ·)
    else none

/-- The text of a string or of a name. -/
def text? (codePoints : List Nat) : Option String :=
  (decode? codePoints).map String.ofList

/-- Skips the blanks of JSON: space, tab, line feed and carriage return. -/
def skipBlank (cs : List Char) : List Char :=
  cs.dropWhile fun c => c == ' ' || c == '\t' || c == '\n' || c == '\r'

def takeLiteral? : List Char → List Char → Option (List Char)
  | [], cs => some cs
  | _ :: _, [] => none
  | e :: es, c :: cs => if e = c then takeLiteral? es cs else none

/-- The character that a one-letter escape stands for. -/
def escaped? : Char → Option Char
  | '"' => some '"'
  | '\\' => some '\\'
  | '/' => some '/'
  | 'b' => some '\x08'
  | 'f' => some '\x0c'
  | 'n' => some '\n'
  | 'r' => some '\r'
  | 't' => some '\t'
  | _ => none

/-- Reads a string after its opening quote, up to and with the closing one. -/
def readString? : List Char → Option (List Nat × List Char)
  | [] => none
  | '"' :: cs => some ([], cs)
  | '\\' :: 'u' :: a :: b :: c :: d :: cs =>
    (Text.hexadecimal? [a, b, c, d]).bind fun n => (readString? cs).map fun (ns, rest) =>
      (n :: ns, rest)
  | '\\' :: c :: cs =>
    (escaped? c).bind fun e => (readString? cs).map fun (ns, rest) => (e.toNat :: ns, rest)
  | c :: cs =>
    if c.toNat < 0x20 ∨ c = '\\' then none
    else (readString? cs).map fun (ns, rest) => (c.toNat :: ns, rest)

def isDigit (c : Char) : Bool :=
  (Text.digit? c).isSome

/-- Reads the fraction of a number, which needs a digit after its point. -/
def readFraction? : List Char → Option (List Char × List Char)
  | '.' :: cs =>
    if (cs.takeWhile isDigit).isEmpty then none
    else some (cs.takeWhile isDigit, cs.dropWhile isDigit)
  | cs => some ([], cs)

def readExponent? : List Char → Option (Option Int × List Char)
  | c :: cs =>
    if c = 'e' ∨ c = 'E' then
      let (negative, cs) := match cs with
        | '-' :: cs => (true, cs)
        | '+' :: cs => (false, cs)
        | cs => (false, cs)
      (Text.decimal? (cs.takeWhile isDigit)).map fun n =>
        (some (if negative then -(n : Int) else n), cs.dropWhile isDigit)
    else some (none, c :: cs)
  | [] => some (none, [])

/-- Reads a number. A whole part of more than one digit does not begin with zero. -/
def readNumber? (cs : List Char) : Option (NumberLiteral × List Char) :=
  let (negative, cs) := match cs with
    | '-' :: cs => (true, cs)
    | cs => (false, cs)
  let whole := cs.takeWhile isDigit
  if whole.isEmpty || (whole.head? == some '0' && whole.length != 1) then none
  else
    (readFraction? (cs.dropWhile isDigit)).bind fun (fraction, cs) =>
      (readExponent? cs).map fun (exponent, cs) => (⟨negative, whole, fraction, exponent⟩, cs)

mutual

/-- Reads a value. The fuel bounds the number of steps; the length of the text is enough. -/
def readValue? : Nat → List Char → Option (Document × List Char)
  | 0, _ => none
  | fuel + 1, cs =>
    match skipBlank cs with
    | 'n' :: cs => (takeLiteral? ['u', 'l', 'l'] cs).map (null, ·)
    | 't' :: cs => (takeLiteral? ['r', 'u', 'e'] cs).map (bool true, ·)
    | 'f' :: cs => (takeLiteral? ['a', 'l', 's', 'e'] cs).map (bool false, ·)
    | '"' :: cs => (readString? cs).map fun (s, cs) => (string s, cs)
    | '[' :: cs =>
      match skipBlank cs with
      | ']' :: cs => some (array [], cs)
      | cs => (readElements? fuel cs).map fun (elements, cs) => (array elements, cs)
    | '{' :: cs =>
      match skipBlank cs with
      | '}' :: cs => some (object [], cs)
      | cs => (readMembers? fuel cs).map fun (members, cs) => (object members, cs)
    | cs => (readNumber? cs).map fun (n, cs) => (number n, cs)

def readElements? : Nat → List Char → Option (List Document × List Char)
  | 0, _ => none
  | fuel + 1, cs =>
    (readValue? fuel cs).bind fun (value, cs) =>
      match skipBlank cs with
      | ',' :: cs => (readElements? fuel cs).map fun (values, cs) => (value :: values, cs)
      | ']' :: cs => some ([value], cs)
      | _ => none

def readMembers? : Nat → List Char → Option (List (List Nat × Document) × List Char)
  | 0, _ => none
  | fuel + 1, cs =>
    match skipBlank cs with
    | '"' :: cs =>
      (readString? cs).bind fun (name, cs) =>
        match skipBlank cs with
        | ':' :: cs =>
          (readValue? fuel cs).bind fun (value, cs) =>
            match skipBlank cs with
            | ',' :: cs =>
              (readMembers? fuel cs).map fun (members, cs) => ((name, value) :: members, cs)
            | '\x7d' :: cs => some ([(name, value)], cs)
            | _ => none
        | _ => none
    | _ => none

end

/-- Reads a whole text as one value with blanks around it. -/
def read? (cs : List Char) : Option Document :=
  match readValue? (2 * cs.length + 1) cs with
  | some (document, rest) => if (skipBlank rest).isEmpty then some document else none
  | none => none

end Document
end Descent.Json
