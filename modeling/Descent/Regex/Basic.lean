import Descent.Regex.CharSet

/-!
# Regular expressions

* `Anchor`: what can be asked of a place between two characters;
* `Regex`: expressions over sets of characters;
* `Regex.concat`, `Regex.alternatives`, `Regex.repeated`: expressions in normal form.

In normal form sequences and alternatives lean to the right, a sequence has no empty part, several
characters to choose from are one set, and alternatives that begin alike are one sequence that
branches where they differ. So `a*b|a*c` prefers a longer run of `a` to the choice of `b`.
-/

namespace Descent

/-- The characters on both sides of a place; the ends of the text have none. -/
structure Place where
  before : Option Char
  after : Option Char
deriving DecidableEq, Repr

/-- What can be asked of a place. -/
inductive Anchor
  | start | stop | wordStart | wordEnd | wordEdge | noWordEdge
deriving DecidableEq, Repr

/-- Whether an anchor holds at a place. -/
def Anchor.holds (place : Place) : Anchor → Bool
  | start => place.before.isNone
  | stop => place.after.isNone
  | wordStart => !place.before.any CharSet.words.holds && place.after.any CharSet.words.holds
  | wordEnd => place.before.any CharSet.words.holds && !place.after.any CharSet.words.holds
  | wordEdge => place.before.any CharSet.words.holds != place.after.any CharSet.words.holds
  | noWordEdge => place.before.any CharSet.words.holds == place.after.any CharSet.words.holds

/-- A regular expression. -/
inductive Regex
  /-- Matches the empty text. -/
  | empty
  /-- Matches one character of a set. -/
  | char (set : CharSet)
  /-- Matches the empty text where an anchor holds. -/
  | anchor (anchor : Anchor)
  /-- Matches its body. Groups that open at different places of a source are different. -/
  | group (place : Nat) (body : Regex)
  /-- Matches one expression, then another. -/
  | seq (first second : Regex)
  /-- Matches one of two expressions, the first if it can. -/
  | alt (first second : Regex)
  /-- Matches a number of rounds of an expression, of which a greedy one prefers more. -/
  | rounds (least : Nat) (greatest : Option Nat) (greedy : Bool) (body : Regex)
deriving DecidableEq, Repr

namespace Regex

/-- Whether an expression can match the empty text somewhere. -/
def canBeEmpty : Regex → Bool
  | empty | anchor _ => true
  | char _ => false
  | group _ body => body.canBeEmpty
  | seq first second => first.canBeEmpty && second.canBeEmpty
  | alt first second => first.canBeEmpty || second.canBeEmpty
  | rounds least _ _ body => least == 0 || body.canBeEmpty

/-- Whether an expression matches nothing but the empty text. -/
def isEmptyOnly : Regex → Bool
  | empty | anchor _ => true
  | char _ => false
  | group _ body => body.isEmptyOnly
  | seq first second | alt first second => first.isEmptyOnly && second.isEmptyOnly
  | rounds _ greatest _ body => greatest.isSome && body.isEmptyOnly

def parts : Regex → List Regex
  | empty => []
  | seq first second => first :: second.parts
  | r => [r]

def branches : Regex → List Regex
  | alt first second => first :: second.branches
  | r => [r]

def ofParts : List Regex → Regex
  | [] => empty
  | [r] => r
  | r :: rs => seq r (ofParts rs)

def ofBranches : List Regex → Regex
  | [] => empty
  | [r] => r
  | r :: rs => alt r (ofBranches rs)

/-- One expression after the other. -/
def concat (rs : List Regex) : Regex :=
  ofParts (rs.flatMap parts)

/-- The set that an expression of one character chooses from. -/
def set? : Regex → Option CharSet
  | char set => some set
  | _ => none

/-- One of some expressions, the first that can. -/
def choice (rs : List Regex) : Regex :=
  let rs := rs.flatMap branches
  match rs.mapM set? with
  | some sets => char (CharSet.unionOf sets)
  | none => ofBranches rs

/-- What two lists have in common at their front. -/
def commonFront : List Regex → List Regex → List Regex
  | a :: as, b :: bs => if a = b then a :: commonFront as bs else []
  | _, _ => []

/-- What sequences of at least two parts have in common at their front. -/
def sharedFront : List (List Regex) → List Regex
  | [] => []
  | first :: rest =>
    if (first :: rest).all (2 ≤ ·.length) then rest.foldl commonFront first else []

/-- One of some expressions, the first that can. What they all begin with comes before the
choice. -/
def alternatives (rs : List Regex) : Regex :=
  let sequences := (rs.flatMap branches).map parts
  let front := sharedFront sequences
  if sequences.length < 2 ∨ front = [] then choice rs
  else concat (front ++ [choice (sequences.map fun s => ofParts (s.drop front.length))])

/-- A number of rounds of an expression. What matches the empty text only is not repeated. -/
def repeated (least : Nat) (greatest : Option Nat) (greedy : Bool) (body : Regex) : Regex :=
  let (least, greatest) :=
    if body.isEmptyOnly then (min least 1, some ((greatest.getD 1).min 1)) else (least, greatest)
  if greatest = some 0 then empty
  else if least = 1 ∧ greatest = some 1 then body
  else rounds least greatest greedy body

def star (greedy : Bool) (body : Regex) : Regex := repeated 0 none greedy body

def plus (greedy : Bool) (body : Regex) : Regex := repeated 1 none greedy body

def optional (greedy : Bool) (body : Regex) : Regex := repeated 0 (some 1) greedy body

end Regex
end Descent
