import Descent.Regex.Automaton

/-!
# Matches

Of all matches the leftmost counts, and of those that start there the one that its expression
prefers. A search keeps the states it can be in, the preferred first. Between two characters it
comes through each state once, on the most preferred way to it.
-/

namespace Descent

/-- What can be done at a place: the characters that can be read, each with the state after it, the
preferred first, and whether the match can end there instead of all that would come after. -/
structure Front where
  reads : List (CharSet × Nat)
  accepts : Bool
deriving DecidableEq, Repr

namespace Automaton

/-- Comes through the states on a stack and those they lead to, none of them twice. -/
def explore (a : Automaton) (place : Place) :
    Nat → List Nat → Array Bool → List (CharSet × Nat) → Front
  | 0, _, _, reads | _ + 1, [], _, reads => ⟨reads.reverse, false⟩
  | fuel + 1, s :: stack, seen, reads =>
    if seen.getD s true then a.explore place fuel stack seen reads
    else
      let seen := seen.setIfInBounds s true
      match a.states.getD s .accept with
      | .read set next => a.explore place fuel stack seen ((set, next) :: reads)
      | .check anchor next =>
        a.explore place fuel (if anchor.holds place then next :: stack else stack) seen reads
      | .branch preferred other => a.explore place fuel (preferred :: other :: stack) seen reads
      | .accept => ⟨reads.reverse, true⟩

/-- What can be done at a place in some states, the preferred first. -/
def front (a : Automaton) (place : Place) (states : List Nat) : Front :=
  a.explore place (2 * a.states.size + states.length + 1) states
    (Array.replicate a.states.size false) []

/-- How many characters the preferred match from some states takes from the front of a text. -/
def run (a : Automaton) (states : List Nat) (before : Option Char) : List Char → Option Nat
  | [] => if (a.front ⟨before, none⟩ states).accepts then some 0 else none
  | c :: cs =>
    let front := a.front ⟨before, some c⟩ states
    let next := front.reads.filterMap fun (set, next) => if set.holds c then some next else none
    match if next.isEmpty then none else a.run next (some c) cs with
    | some n => some (n + 1)
    | none => if front.accepts then some 0 else none

end Automaton

/-- A match cuts its text in three. -/
structure Match where
  skipped : List Char
  matched : List Char
  rest : List Char
deriving DecidableEq, Repr

/-- How many characters there are up to the end of a match. -/
def Match.stop (m : Match) : Nat :=
  m.skipped.length + m.matched.length

namespace Automaton

/-- The leftmost match in what is left of a text. -/
def findFrom (a : Automaton) (before : Option Char) (cs : List Char) : Option Match :=
  match a.run [a.start] before cs with
  | some n => some ⟨[], cs.take n, cs.drop n⟩
  | none => match cs with
    | [] => none
    | c :: cs => (a.findFrom (some c) cs).map fun m => { m with skipped := c :: m.skipped }

end Automaton

/-- The leftmost match in a text. -/
def Regex.find? (r : Regex) (cs : List Char) : Option Match :=
  r.automaton.findFrom none cs

end Descent
