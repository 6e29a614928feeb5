import Descent.Proofs.Script.Lexemes
import Descent.Proofs.Script.Syntax
import Descent.Proofs.Session.Repetition

/-!
# Readers of scripts

* `readName`, `readNumber`, `readText`, `readCall`, `readExpr`, `readBinding`, `readScript`: one
  reader for each production.

They follow the productions step by step, levels included, but work on the text alone. The reader of
an expression is a recursion over the levels.
-/

namespace Descent.Script

open Reader (many commaTurn seriesTurn)

/-! ## Lexemes -/

def readName : Reader String := fun cs => do
  let (l, rest) ← nameSpan? cs
  return (String.ofList l, rest)

def readNumber : Reader Json := fun cs => do
  let (l, rest) ← numberSpan? cs
  let value ← numberValue? l
  return (value, rest)

/-- Reads the first of some escapes that is there. -/
def readOneOf : List (String × Char) → Reader Char
  | [], _ => none
  | (escape, c) :: escapes, cs =>
    match literalSpan? escape cs with
    | some (_, rest) => some (c, rest)
    | none => readOneOf escapes cs

/-- Reads the code point of an escape and the closing brace. -/
def readCodePoint : Reader Char := fun cs => do
  let (hex, cs) ← bracedSpan? cs
  let (_, rest) ← literalSpan? "\x7d" cs
  let c ← Cursor.codePoint? (String.ofList hex)
  return (c, rest)

def readEscaped : Reader Char := fun cs =>
  match literalSpan? "\\u\x7b" cs with
  | some (_, cs) => readCodePoint cs
  | none => readOneOf escapes cs

/-- Reads what an item of a text literal stands for, or the closing quote. -/
def readPiece : Reader (Turn (List Char)) := fun cs =>
  match plainSpan? cs with
  | some (l, rest) => some (.next l, rest)
  | none =>
  match literalSpan? "\"" cs with
  | some (_, rest) => some (.stop, rest)
  | none => (readEscaped cs).map fun (c, rest) => (.next [c], rest)

def readText : Reader String := fun cs => do
  let (_, cs) ← literalSpan? "\"" cs
  let (pieces, rest) ← many readPiece cs
  return (String.ofList pieces.flatten, rest)

/-! ## Expressions -/

/-- Reads what follows the opening parenthesis of a call and the space after it, up to the closing
parenthesis. -/
def readArgs (read : Reader Expr) : Reader (List Expr) := fun cs =>
  if (literalSpan? ")" cs).isSome then some ([], cs) else many read.commaTurn cs

def readCall (levels : Nat) (read : Reader Expr) : Reader (String × List Expr) := fun cs => do
  let (name, cs) ← deeper levels readName cs
  let (_, cs) ← literalSpan? "(" (cs.dropWhile Text.isSpace)
  let (args, cs) ← readArgs read (cs.dropWhile Text.isSpace)
  let (_, rest) ← literalSpan? ")" (cs.dropWhile Text.isSpace)
  return ((name, args), rest)

def readExpr : Nat → Reader Expr
  | levels + 2, cs =>
    if (literalSpan? "\"" cs).isSome then
      (readText cs).map fun (s, rest) => (.text s, rest)
    else if (numberSpan? cs).isSome then
      (readNumber cs).map fun (value, rest) => (.number value, rest)
    else do
      let (name, rest) ← readName cs
      if (openSpan? rest).isSome then
        (readCall levels (readExpr levels) cs).map fun (call, rest) =>
          (.call call.1 call.2, rest)
      else return (.name name, rest)
  | _, _ => none

/-- Reads a call when it takes a level of its own. -/
def readCallAt : Nat → Reader (String × List Expr)
  | 0, _ => none
  | levels + 1, cs => readCall levels (readExpr levels) cs

/-- The level of an expression and that of its part taken apart. -/
theorem readExpr_succ (levels : Nat) (cs : List Char) :
    readExpr (levels + 1) cs =
      if (literalSpan? "\"" cs).isSome then
        (deeper levels readText cs).map fun (s, rest) => (.text s, rest)
      else if (numberSpan? cs).isSome then
        (deeper levels readNumber cs).map fun (value, rest) => (.number value, rest)
      else do
        let (name, rest) ← deeper levels readName cs
        if (openSpan? rest).isSome then
          (readCallAt levels cs).map fun (call, rest) => (.call call.1 call.2, rest)
        else return (.name name, rest) := by
  cases levels with
  | zero => simp [readExpr, deeper]
  | succ levels => rfl

/-! ## Bindings and scripts -/

/-- Whether the next word, after any space, is the one that begins a binding. -/
def startsBinding (cs : List Char) : Bool :=
  ((cs.dropWhile Text.isSpace).takeWhile Word.has).map Char.toLower == ['l', 'e', 't']

/-- The text behind the next word and the space on both sides of it. -/
def pastWord (cs : List Char) : List Char :=
  ((cs.dropWhile Text.isSpace).dropWhile Word.has).dropWhile Text.isSpace

def readWord : Reader Unit := fun cs =>
  if startsBinding cs then some ((), pastWord cs) else none

def readBinding (levels : Nat) : Reader Binding := fun cs => do
  let (_, cs) ← readWord cs
  let (name, cs) ← deeper levels readName cs
  let (_, cs) ← literalSpan? "=" (cs.dropWhile Text.isSpace)
  let (value, cs) ← readExpr levels (cs.dropWhile Text.isSpace)
  let (_, rest) ← literalSpan? ";" (cs.dropWhile Text.isSpace)
  return (⟨name, value⟩, rest)

/-- A script is the whole text, so it leaves nothing. -/
def readScript (levels : Nat) : Reader (List Binding) := fun cs => do
  let (bindings, cs) ← many (seriesTurn (deeper levels (readBinding (levels - 1))) startsBinding) cs
  if (cs.dropWhile Text.isSpace).isEmpty then return (bindings, []) else none

end Descent.Script
