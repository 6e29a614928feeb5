import Descent.Proofs.Script.Lexemes
import Descent.Proofs.Script.Syntax

/-!
# The language of scripts

* `IsName`, `IsNumeral`, `IsText`: the lexemes;
* `IsExpr`, `IsCall`, `IsArgs`, `IsMore`: expressions and calls, and what follows the opening
  parenthesis or an argument;
* `IsBinding`, `IsScript`: bindings and scripts.

Each relates a text to the syntax tree that it is the text of. Nothing is said about how a text is
read.
-/

namespace Descent.Script

/-- Any run of white space. -/
def Blank (w : List Char) : Prop :=
  ∀ c ∈ w, Text.isSpace c

/-! ## Lexemes -/

/-- A letter or underscore, and letters, digits and underscores. -/
inductive IsName : List Char → Prop
  | cons {c cs} : startsName c → (∀ d ∈ cs, Word.has d) → IsName (c :: cs)

/-- One digit of ASCII or more. -/
structure IsDigits (l : List Char) : Prop where
  ne_nil : l ≠ []
  isDigit : ∀ c ∈ l, c.isDigit

/-- Digits, perhaps with a fraction. -/
inductive IsUnsigned : List Char → Prop
  | whole {l} : IsDigits l → IsUnsigned l
  | fraction {l r} : IsDigits l → IsDigits r → IsUnsigned (l ++ '.' :: r)

/-- Digits, perhaps with a minus and a fraction. -/
inductive IsNumeral : List Char → Prop
  | plus {l} : IsUnsigned l → IsNumeral l
  | minus {l} : IsUnsigned l → IsNumeral ('-' :: l)

/-- A text literal from behind its opening quote on, and the text that it stands for. -/
inductive Quoted : List Char → List Char → Prop
  | close : Quoted ['"'] []
  | plain {c l s} : isPlain c → Quoted l s → Quoted (c :: l) (c :: s)
  | escape {e c l s} : (e, c) ∈ escapes → Quoted l s → Quoted (e.toList ++ l) (c :: s)
  | unicode {hex c l s} : Cursor.codePoint? (String.ofList hex) = some c → Quoted l s →
      Quoted ('\\' :: 'u' :: '\x7b' :: hex ++ '\x7d' :: l) (c :: s)

/-- A text literal. -/
inductive IsText : List Char → String → Prop
  | mk {l s} : Quoted l s → IsText ('"' :: l) (String.ofList s)

/-! ## Expressions -/

mutual

inductive IsExpr : List Char → Expr → Prop
  | text {l s} : IsText l s → IsExpr l (.text s)
  | number {l value} : IsNumeral l → numberValue? l = some value → IsExpr l (.number value)
  | name {l} : IsName l → IsExpr l (.name (String.ofList l))
  | call {l f args} : IsCall l f args → IsExpr l (.call f args)

inductive IsCall : List Char → String → List Expr → Prop
  | mk {f w l args} : IsName f → Blank w → IsArgs l args →
      IsCall (f ++ w ++ '(' :: l) (String.ofList f) args

/-- What follows the opening parenthesis of a call. -/
inductive IsArgs : List Char → List Expr → Prop
  | none {w} : Blank w → IsArgs (w ++ [')']) []
  | some {w l x r xs} : Blank w → IsExpr l x → IsMore r xs → IsArgs (w ++ l ++ r) (x :: xs)

/-- What follows an argument of a call. -/
inductive IsMore : List Char → List Expr → Prop
  | close {w} : Blank w → IsMore (w ++ [')']) []
  | comma {w w' l x r xs} : Blank w → Blank w' → IsExpr l x → IsMore r xs →
      IsMore (w ++ ',' :: w' ++ l ++ r) (x :: xs)

end

/-! ## Bindings and scripts -/

/-- A binding. The word in front may be in any case. -/
inductive IsBinding : List Char → Binding → Prop
  | mk {word w f w₁ w₂ l w₃ x} : word.map Char.toLower = ['l', 'e', 't'] → Blank w → w ≠ [] →
      IsName f → Blank w₁ → Blank w₂ → IsExpr l x → Blank w₃ →
      IsBinding (word ++ w ++ f ++ w₁ ++ '=' :: w₂ ++ l ++ w₃ ++ [';']) ⟨String.ofList f, x⟩

inductive IsScript : List Char → List Binding → Prop
  | nil {w} : Blank w → IsScript w []
  | cons {w l b r bs} : Blank w → IsBinding l b → IsScript r bs → IsScript (w ++ l ++ r) (b :: bs)

end Descent.Script
