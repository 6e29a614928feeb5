import Descent.Cursor.Reading

/-!
# Actions of a cursor

Everything a cursor can do as a value, with the type of its answer, and what doing it comes to. A
sequence of actions goes on after a failure.
-/

namespace Descent.Cursor

/-- Something a cursor can do. -/
inductive Action
  | next
  | takeChar
  | takeChars (n : Nat)
  | goTo (offset : Nat)
  | takeWhile (p : Char → Bool)
  | dropSpace
  | setMark
  | goToMark
  | sees (p : Pattern)
  | seesWord (expected : Option String)
  | takeWord
  | take? (p : Pattern)
  | take (p : Pattern) (message : Option String)
  | takeThisWord (expected : Option String)
  | decode (hex : String)
  | position
  | window (count : Nat)
  | diagnostic (message : String)
  | fail (message : String)

/-- What an action answers. -/
def Action.Answer : Action → Type
  | next | takeChar => Option Char
  | takeChars _ => Nat
  | goTo _ | dropSpace | setMark | goToMark => Unit
  | takeWhile _ | takeWord | take .. | takeThisWord _ => String
  | sees _ | seesWord _ => Bool
  | take? _ => Option String
  | decode _ => Char
  | position => Position
  | window _ => Window
  | diagnostic _ => Diagnostic
  | fail _ => Empty

/-- Does what an action says. -/
def perform (c : Cursor) : (a : Action) → Outcome Cursor a.Answer
  | .next => (.ok c.next?, c)
  | .takeChar => (.ok c.takeChar.1, c.takeChar.2)
  | .takeChars n => (.ok (c.takeChars n).1, (c.takeChars n).2)
  | .goTo offset => c.goTo offset
  | .takeWhile p => (.ok (c.takeWhile p).1, (c.takeWhile p).2)
  | .dropSpace => (.ok (), c.dropSpace)
  | .setMark => (.ok (), c.setMark)
  | .goToMark => c.goToMark
  | .sees p => (c.sees p, c)
  | .seesWord expected => (.ok (c.seesWord expected).1, (c.seesWord expected).2)
  | .takeWord => (.ok c.takeWord.1, c.takeWord.2)
  | .take? p => c.take? p
  | .take p message => c.take p message
  | .takeThisWord expected => c.takeThisWord expected
  | .decode hex => (c.decode hex, c)
  | .position => (.ok c.position, c)
  | .window count => (c.window count, c)
  | .diagnostic message => (.ok (c.diagnostic message), c)
  | .fail message => (.error (c.unexpected message), c)

end Descent.Cursor
