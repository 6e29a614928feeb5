import Descent.Proofs.Cursor.Span

/-!
# Actions that depend on what is ahead

* `Failure.bare`: a failure without the place that it names;
* `Matches`: answers that are related, or failures that are the same but for their places;
* `Cursor.Action.isLocal`: the actions that do the same wherever the text ahead is the same.
-/

namespace Descent

/-- A diagnostic without its place. -/
def Diagnostic.bare (d : Diagnostic) : Diagnostic :=
  ⟨d.message, ⟨0, 0, 0⟩, ""⟩

/-- A failure without its place in the text. -/
def Failure.bare : Failure → Failure
  | unexpected d => unexpected d.bare
  | tooDeep depth maxDepth d => tooDeep depth maxDepth d.bare
  | e => e

/-- Two answers are related, or both are failures, which are the same but for their places. -/
def Matches {α β : Type} (Q : α → β → Prop) : Except Failure α → Except Failure β → Prop
  | .ok a, .ok b => Q a b
  | .error e, .error e' => e.bare = e'.bare
  | _, _ => False

theorem Matches.of_eq {α : Type} {x y : Except Failure α} (h : x = y) : Matches Eq x y := by
  subst h
  cases x <;> rfl

theorem Matches.ok {α β : Type} {Q : α → β → Prop} {a : α} {b : β} (h : Q a b) :
    Matches Q (.ok a) (.ok b) := h

theorem Matches.mono {α β : Type} {Q Q' : α → β → Prop} {x : Except Failure α}
    {y : Except Failure β} (h : Matches Q x y) (hQ : ∀ a b, Q a b → Q' a b) : Matches Q' x y := by
  cases x <;> cases y
  · exact h
  · exact h
  · exact h
  · exact hQ _ _ h

namespace Cursor

/-- Whether an action answers and moves by what is ahead alone. -/
def Action.isLocal : Action → Bool
  | goTo _ | setMark | goToMark | position | window _ | diagnostic _ => false
  | _ => true

/-- A word with the space on both sides of it, in front of a text. -/
private def spacedWord (cs : List Char) : List Char :=
  cs.takeWhile Text.isSpace ++ (cs.dropWhile Text.isSpace).takeWhile Word.has ++
    ((cs.dropWhile Text.isSpace).dropWhile Word.has).takeWhile Text.isSpace

theorem plain_forward (c : Cursor) (n : Nat) : (c.forward n).plain =
    { c.plain with behind := (c.ahead.take n).reverse ++ c.behind, ahead := c.ahead.drop n } := rfl

private theorem pastWord_eq (c : Cursor) :
    c.plain.pastWord = (c.forward (spacedWord c.ahead).length).plain := by
  have happend : c.ahead = spacedWord c.ahead ++
      ((c.ahead.dropWhile Text.isSpace).dropWhile Word.has).dropWhile Text.isSpace := by
    simp [spacedWord]
  have htake : c.ahead.take (spacedWord c.ahead).length = spacedWord c.ahead :=
    (congrArg (List.take _) happend).trans List.take_left
  have hdrop : c.ahead.drop (spacedWord c.ahead).length =
      ((c.ahead.dropWhile Text.isSpace).dropWhile Word.has).dropWhile Text.isSpace :=
    (congrArg (List.drop _) happend).trans List.drop_left
  rw [plain_forward, htake, hdrop]
  rfl

private theorem takeThisWord_eq (c : Cursor) (expected : Option String) :
    ((c.takeThisWord expected).1, (c.takeThisWord expected).2.plain) =
      match wordFault? expected c.plain.word with
      | none => (.ok c.plain.word, c.plain.pastWord)
      | some message => (.error (c.unexpected message), c.plain) :=
  (c.takeThisWord_plain expected).symm

variable {c c' : Cursor} (h : c.ahead = c'.ahead)
include h

theorem word_congr : c.plain.word = c'.plain.word := by
  rw [Plain.word, Plain.word]
  exact congrArg _ (congrArg _ (congrArg _ (congrArg _ h)))

theorem sees_congr (p : Pattern) : c.sees p = c'.sees p := by
  rw [sees, sees, h]

theorem seesWord_congr (expected : Option String) :
    (c.seesWord expected).1 = (c'.seesWord expected).1 := by
  cases expected with
  | none => rw [seesWord, seesWord, h]
  | some expected => rw [seesWord_some, seesWord_some, word_congr h]

theorem take?_congr (p : Pattern) :
    (c.take? p).1 = (c'.take? p).1 ∧ ∃ n,
      (c.take? p).2.plain = (c.forward n).plain ∧ (c'.take? p).2.plain = (c'.forward n).plain := by
  rw [take?, take?, ← h]
  rcases p.extent? c.ahead with e | _ | n
  · exact ⟨rfl, 0, rfl, rfl⟩
  · exact ⟨rfl, 0, rfl, rfl⟩
  · exact ⟨rfl, n, rfl, rfl⟩

/-- A local action comes to the same answer where the same is ahead, and moves as far. -/
theorem perform_local {a : Action} (ha : a.isLocal) :
    Matches Eq (c.perform a).1 (c'.perform a).1 ∧ ∃ n,
      (c.perform a).2.plain = (c.forward n).plain ∧
        (c'.perform a).2.plain = (c'.forward n).plain := by
  have hstay : ∃ n, c.plain = (c.forward n).plain ∧ c'.plain = (c'.forward n).plain :=
    ⟨0, rfl, rfl⟩
  have hword : ∃ n, c.plain.pastWord = (c.forward n).plain ∧
      c'.plain.pastWord = (c'.forward n).plain :=
    ⟨_, c.pastWord_eq, by rw [h]; exact c'.pastWord_eq⟩
  have hnext : c.next? = c'.next? := congrArg List.head? h
  cases a with
  | goTo | setMark | goToMark | position | window | diagnostic => cases ha
  | next => exact ⟨hnext, hstay⟩
  | takeChar => exact ⟨hnext, 1, rfl, rfl⟩
  | takeChars n => exact ⟨.ok (congrArg (fun cs => (cs.take n).length) h), n, rfl, rfl⟩
  | takeWhile p =>
    have htaken : c.ahead.takeWhile p = c'.ahead.takeWhile p := by rw [h]
    refine ⟨.ok (congrArg String.ofList htaken), _, rfl, ?_⟩
    rw [h]
    rfl
  | dropSpace =>
    refine ⟨rfl, _, rfl, ?_⟩
    rw [h]
    rfl
  | sees p => exact ⟨.of_eq (sees_congr h p), hstay⟩
  | seesWord expected =>
    refine ⟨seesWord_congr h expected, ?_⟩
    cases expected with
    | none => exact hstay
    | some expected =>
      change ∃ n, c.scanned.2.plain = _ ∧ c'.scanned.2.plain = _
      rw [plain_scanned, plain_scanned]
      exact hstay
  | takeWord =>
    refine ⟨(takeWord_fst c).trans ((word_congr h).trans (takeWord_fst c').symm), ?_⟩
    change ∃ n, c.takeWord.2.plain = _ ∧ c'.takeWord.2.plain = _
    rw [plain_takeWord, plain_takeWord]
    exact hword
  | take? p => exact ⟨.of_eq (take?_congr h p).1, (take?_congr h p).2⟩
  | take p message =>
    obtain ⟨hanswer, hmove⟩ := take?_congr h p
    rw [perform, perform, take, take]
    rcases ht : c.take? p with ⟨answer, after⟩
    rcases ht' : c'.take? p with ⟨answer', after'⟩
    rw [ht, ht'] at hanswer hmove
    obtain rfl : answer = answer' := hanswer
    rcases answer with e | _ | matched <;> exact ⟨rfl, hmove⟩
  | takeThisWord expected =>
    have hplain := c.takeThisWord_eq expected
    have hplain' := c'.takeThisWord_eq expected
    rw [← word_congr h] at hplain'
    rw [perform, perform]
    cases hfault : wordFault? expected c.plain.word with
    | none =>
      rw [hfault, Prod.mk.injEq] at hplain hplain'
      rw [hplain.1, hplain'.1, hplain.2, hplain'.2]
      exact ⟨rfl, hword⟩
    | some message =>
      rw [hfault, Prod.mk.injEq] at hplain hplain'
      rw [hplain.1, hplain'.1, hplain.2, hplain'.2]
      exact ⟨rfl, hstay⟩
  | decode hex =>
    refine ⟨?_, hstay⟩
    rw [perform, perform, decode, decode]
    cases codePoint? hex <;> rfl
  | fail message => exact ⟨rfl, hstay⟩

end Cursor
end Descent
