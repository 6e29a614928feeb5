import Descent.Proofs.Cursor.Run
import Descent.Proofs.Session.Repetition

/-!
# Words

* `nextWord`, `behindWord`: the next word of a text, after any space, and what follows the space
  behind it;
* `readThisWord`: the reader of an expected word, or of any word.

A program that takes a word follows the reader.
-/

namespace Descent

variable {cs l r : List Char}

/-! ## The next word -/

/-- The next word after any space, in lower case. -/
def nextWord (cs : List Char) : String :=
  String.ofList (((cs.dropWhile Text.isSpace).takeWhile Word.has).map Char.toLower)

/-- The text behind the next word and the space on both sides of it. -/
def behindWord (cs : List Char) : List Char :=
  ((cs.dropWhile Text.isSpace).dropWhile Word.has).dropWhile Text.isSpace

/-- Reads the expected word, or any word. -/
def readThisWord (expected : Option String) : Reader String := fun cs =>
  match Cursor.wordFault? expected (nextWord cs) with
  | none => some (nextWord cs, behindWord cs)
  | some _ => none

/-- A word that is not expected has some characters. -/
theorem wordFault?_none_iff {word : String} :
    Cursor.wordFault? none word = none ↔ word.toList ≠ [] := by
  rw [Cursor.wordFault?, Ne, String.toList_eq_nil_iff, ← String.isEmpty_iff]
  cases word.isEmpty <;> simp

theorem shrinks_readThisWord : (readThisWord none).Shrinks := by
  intro cs word rest h
  unfold readThisWord at h
  split at h
  next hfault =>
    cases h
    have hne : (cs.dropWhile Text.isSpace).takeWhile Word.has ≠ [] := by
      have hword := wordFault?_none_iff.1 hfault
      rw [nextWord, String.toList_ofList] at hword
      exact fun hnil => hword (by rw [hnil]; rfl)
    have hpos := List.length_pos_iff.2 hne
    have hsplit := congrArg List.length
      (List.takeWhile_append_dropWhile (p := Word.has) (l := cs.dropWhile Text.isSpace))
    have hspace := (cs.dropWhile_suffix Text.isSpace).length_le
    have hbehind := ((cs.dropWhile Text.isSpace).dropWhile Word.has).dropWhile_suffix Text.isSpace
    have hrest := hbehind.length_le
    rw [List.length_append] at hsplit
    rw [behindWord]
    omega
  next => cases h

theorem nextWord_append (hne : l ≠ []) (hl : ∀ c ∈ l, Word.has c) (hr : Stops Word.has r) :
    nextWord (l ++ r) = String.ofList (l.map Char.toLower) := by
  rw [nextWord, (stops_of_has hne hl r).dropWhile, hr.takeWhile_append hl]

theorem behindWord_append (hne : l ≠ []) (hl : ∀ c ∈ l, Word.has c) (hr : Stops Word.has r) :
    behindWord (l ++ r) = r.dropWhile Text.isSpace := by
  rw [behindWord, (stops_of_has hne hl r).dropWhile, hr.dropWhile_append hl]

/-- The expected word is taken from the front of a text, with the space behind it. -/
theorem readThisWord_append {expected : Option String} (hne : l ≠ []) (hl : ∀ c ∈ l, Word.has c)
    (hr : Stops Word.has r)
    (hfault : Cursor.wordFault? expected (String.ofList (l.map Char.toLower)) = none) :
    readThisWord expected (l ++ r) =
      some (String.ofList (l.map Char.toLower), r.dropWhile Text.isSpace) := by
  rw [readThisWord, nextWord_append hne hl hr, hfault, behindWord_append hne hl hr]

namespace Session

variable {g : Grammar} {levels : Nat} {s : Session}

theorem Ready.agrees_takeThisWord (hs : s.Ready g levels) (hahead : s.cursor.ahead = cs)
    (expected : Option String) :
    Agrees ((Program.takeThisWord expected).run (g.handler levels) s) (readThisWord expected cs)
      fun word x s' => word = x.1 ∧ s.Comes x.2 [] s' := by
  subst hahead
  unfold readThisWord
  rcases hfault : Cursor.wordFault? expected (nextWord s.cursor.ahead) with _ | message
  · obtain ⟨c, hc, hmoves⟩ := Cursor.takeThisWord_of_no_fault hfault
    exact ⟨_, _, run_act (a := .takeThisWord expected) hc, rfl, hs.comes hmoves⟩
  · obtain ⟨e, c, hc⟩ := Cursor.takeThisWord_of_fault hfault
    exact ⟨_, _, run_act (a := .takeThisWord expected) hc⟩

end Session
end Descent
