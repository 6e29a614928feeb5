import Descent.Regex.Basic

/-!
# Automata

* `Automaton`: states that read a character, ask for an anchor, branch or accept;
* `Regex.automaton`: the automaton of an expression.

An expression is built from its end, before what is to follow it. Counted rounds are copies of their
body. A state stands for a point of the expression, and which points a search has already come
through decides what is preferred in a round that may be empty; so the branches stand where the
order of preference puts them: a body that may be empty is entered first and asked for another round
after it.
-/

namespace Descent

/-- What a state does, and the states it goes on to. -/
inductive Automaton.State
  | read (set : CharSet) (next : Nat)
  | check (anchor : Anchor) (next : Nat)
  | branch (preferred other : Nat)
  | accept
deriving DecidableEq, Repr

/-- States, by number, and the one to start in. -/
structure Automaton where
  states : Array Automaton.State
  start : Nat
deriving DecidableEq, Repr

namespace Automaton

/-- Adds a state and starts in it. -/
def add (a : Automaton) (state : State) : Automaton :=
  let number := a.states.size
  ⟨a.states.push state, number⟩

/-- The branch between another round and the way out. -/
def choose (greedy : Bool) (again out : Nat) : State :=
  if greedy then .branch again out else .branch out again

/-- Puts a number of copies in front. -/
def copies (front : Automaton → Automaton) : Nat → Automaton → Automaton
  | 0, a => a
  | n + 1, a => copies front n (front a)

/-- Puts up to a number of rounds in front, each of which can leave to the same state. -/
def upTo (greedy : Bool) (out : Nat) (front : Automaton → Automaton) (n : Nat) (a : Automaton) :
    Automaton :=
  copies (fun a =>
    let ⟨states, round⟩ := front a
    add ⟨states, round⟩ (choose greedy round out)) n a

/-- Puts one round or more in front: after a round the body is entered again or left. -/
def loop (greedy : Bool) (front : Automaton → Automaton) (a : Automaton) : Automaton :=
  let turn := a.states.size
  let out := a.start
  let ⟨states, start⟩ := front (a.add .accept)
  ⟨states.setIfInBounds turn (choose greedy start out), start⟩

/-- Puts any number of rounds in front, none of which is empty. -/
def cycle (greedy : Bool) (front : Automaton → Automaton) (a : Automaton) : Automaton :=
  let turn := a.states.size
  let ⟨states, _⟩ := loop greedy front a
  ⟨states, turn⟩

end Automaton

namespace Regex

/-- Puts an expression in front of an automaton. -/
def before : Regex → Automaton → Automaton
  | empty, a => a
  | char set, a => a.add (.read set a.start)
  | anchor x, a => a.add (.check x a.start)
  | group _ body, a => body.before a
  | seq first second, a => first.before (second.before a)
  | alt first second, a =>
    let out := a.start
    let ⟨states, other⟩ := second.before a
    let ⟨states, preferred⟩ := first.before ⟨states, out⟩
    Automaton.add ⟨states, preferred⟩ (.branch preferred other)
  | rounds least greatest greedy body, a =>
    match least, greatest with
    | least, some greatest =>
      let out := a.start
      Automaton.copies body.before least
        (Automaton.upTo greedy out body.before (greatest - least) a)
    | 0, none =>
      if body.canBeEmpty then
        let out := a.start
        let ⟨states, more⟩ := Automaton.loop greedy body.before a
        Automaton.add ⟨states, more⟩ (Automaton.choose greedy more out)
      else Automaton.cycle greedy body.before a
    | least + 1, none => Automaton.copies body.before least (Automaton.loop greedy body.before a)

def automaton (r : Regex) : Automaton :=
  r.before ⟨#[.accept], 0⟩

end Regex
end Descent
