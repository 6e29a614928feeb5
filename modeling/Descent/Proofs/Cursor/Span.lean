import Descent.Proofs.Cursor.Recall
import Descent.Proofs.Regex.Fronts

/-!
# Spans of patterns

* `Pattern.Spans`: which characters a pattern takes from the front of a text;
* `Cursor.MovesTo`: a cursor that has the given text ahead and is the same in all else that shows.

With the span of a pattern known, looking for it and taking it are equations.
-/

namespace Descent

/-- A pattern takes the front of a text and leaves the rest, as a function says. -/
structure Pattern.Spans (p : Pattern) (span? : List Char → Option (List Char × List Char)) :
    Prop where
  extent?_eq : ∀ cs, p.extent? cs = .ok ((span? cs).map (·.1.length))
  append_eq : ∀ {cs l r}, span? cs = some (l, r) → l ++ r = cs

/-- The span of a literal. -/
def literalSpan? (s : String) (cs : List Char) : Option (List Char × List Char) :=
  if s.toList.isPrefixOf cs then some (s.toList, cs.drop s.toList.length) else none

theorem spans_literal (s : String) : (Pattern.literal s).Spans (literalSpan? s) where
  extent?_eq cs := by
    unfold Pattern.extent? literalSpan?
    simp only [Except.ok.injEq]
    split <;> rfl
  append_eq {cs l r} h := by
    unfold literalSpan? at h
    split at h
    next hp =>
      cases h
      obtain ⟨r, rfl⟩ := List.isPrefixOf_iff_prefix.1 hp
      simp
    next => cases h

theorem append_of_literalSpan? {s : String} {cs l r : List Char}
    (h : literalSpan? s cs = some (l, r)) : s.toList ++ r = cs := by
  have hl : l = s.toList := by
    unfold literalSpan? at h
    split at h <;> cases h
    rfl
  exact hl ▸ (spans_literal s).append_eq h

/-- The span of a literal of one character. -/
theorem literalSpan?_singleton {s : String} {c : Char} (h : s.toList = [c]) (cs : List Char) :
    literalSpan? s cs =
      match cs with
      | [] => none
      | d :: cs => if d = c then some ([c], cs) else none := by
  cases cs with
  | nil => simp [literalSpan?, h]
  | cons d cs =>
    by_cases hd : d = c
    · simp [literalSpan?, h, hd]
    · simp [literalSpan?, h, hd, Ne.symm hd]

namespace Cursor

/-- A cursor that stands before `rest`, and is the same as `c` but for its place. -/
structure MovesTo (c : Cursor) (rest : List Char) (c' : Cursor) : Prop where
  ahead : c'.ahead = rest
  text : c'.text = c.text
  mark : c'.mark = c.mark
  settings : c'.settings = c.settings

variable {c c' c'' : Cursor} {l r rest : List Char}

theorem MovesTo.refl (c : Cursor) : c.MovesTo c.ahead c := ⟨rfl, rfl, rfl, rfl⟩

theorem MovesTo.trans (h : c.MovesTo l c') (h' : c'.MovesTo r c'') : c.MovesTo r c'' :=
  ⟨h'.ahead, h'.text.trans h.text, h'.mark.trans h.mark, h'.settings.trans h.settings⟩

/-- Two places of a text are one if as much is ahead of both. -/
theorem MovesTo.offset_eq_iff (h : c.MovesTo l c') (h' : c.MovesTo r c'') :
    c'.offset = c''.offset ↔ l = r := by
  have ht : c'.behind.reverse ++ l = c''.behind.reverse ++ r := by
    rw [← h.ahead, ← h'.ahead]
    exact h.text.trans h'.text.symm
  constructor
  · intro ho
    exact (Text.append_inj_of_size ht (by simpa [offset] using ho)).2
  · rintro rfl
    have hb := List.append_cancel_right ht
    rw [offset, offset, ← Text.size_reverse c'.behind, hb, Text.size_reverse]

theorem movesTo_forward (h : l ++ r = c.ahead) : c.MovesTo r (c.forward l.length) where
  ahead := by simp [forward, place, ← h]
  text := text_place ..
  mark := rfl
  settings := rfl

theorem dropSpace_movesTo (c : Cursor) :
    c.MovesTo (c.ahead.dropWhile Text.isSpace) c.dropSpace :=
  movesTo_forward List.takeWhile_append_dropWhile

/-- A cursor that goes back to where another one on its text stands. -/
theorem MovesTo.goTo (h : c.MovesTo rest c') :
    ∃ back, c'.goTo c.offset = (.ok (), back) ∧ c.MovesTo c.ahead back := by
  have hoffset : c.offset = Text.size c.behind.reverse := (Text.size_reverse _).symm
  have hcut : c.behind.reverse ++ c.ahead = c'.text := h.text.symm
  rw [hoffset, goTo_size hcut]
  refine ⟨_, rfl, ⟨rfl, ?_, h.mark, h.settings⟩⟩
  rw [text_place, h.text]

theorem MovesTo.moveTo (h : c.MovesTo rest c') : c.MovesTo c.ahead (c'.moveTo c.offset) := by
  have hoffset : c.offset = Text.size c.behind.reverse := (Text.size_reverse _).symm
  have hcut : c.behind.reverse ++ c.ahead = c'.text := h.text.symm
  rw [hoffset, moveTo_size hcut]
  refine ⟨rfl, ?_, h.mark, h.settings⟩
  rw [text_place, h.text]

section
variable {p : Pattern} {span? : List Char → Option (List Char × List Char)} (hs : p.Spans span?)
include hs

theorem sees_of_spans (c : Cursor) : c.sees p = .ok (span? c.ahead).isSome := by
  rw [sees, hs.extent?_eq]
  cases span? c.ahead <;> rfl

theorem take?_of_span_none (h : span? c.ahead = none) : c.take? p = (.ok none, c) := by
  rw [take?, hs.extent?_eq, h]
  rfl

theorem take?_of_span_some (h : span? c.ahead = some (l, r)) :
    ∃ c', c.take? p = (.ok (some (String.ofList l)), c') ∧ c.MovesTo r c' := by
  have happend := hs.append_eq h
  refine ⟨c.forward l.length, ?_, movesTo_forward happend⟩
  have htake : c.ahead.take l.length = l := by rw [← happend, List.take_left]
  simp [take?, hs.extent?_eq, h, htake]

theorem take_of_span_none (h : span? c.ahead = none) (message : Option String) :
    c.take p message = (.error (c.unexpected (message.getD s!"expected: {p.text}")), c) := by
  rw [take, take?_of_span_none hs h]

theorem take_of_span_some (h : span? c.ahead = some (l, r)) (message : Option String) :
    ∃ c', c.take p message = (.ok (String.ofList l), c') ∧ c.MovesTo r c' := by
  obtain ⟨c', hc, hr⟩ := take?_of_span_some hs h
  exact ⟨c', by rw [take, hc], hr⟩

end

/-! ## Words -/

theorem seesWord_some (c : Cursor) (expected : String) :
    (c.seesWord (some expected)).1 = (c.plain.word == Word.lower expected) := by
  simp only [seesWord, scanned_word]

theorem takeThisWord_of_fault {expected : Option String} {message : String}
    (h : wordFault? expected c.plain.word = some message) :
    ∃ e c', c.takeThisWord expected = (.error e, c') := by
  simp only [takeThisWord, takeWord_fst, h]
  exact ⟨_, _, rfl⟩

theorem takeThisWord_of_no_fault {expected : Option String}
    (h : wordFault? expected c.plain.word = none) :
    ∃ c', c.takeThisWord expected = (.ok c.plain.word, c') ∧
      c.MovesTo c.plain.pastWord.ahead c' := by
  refine ⟨c.takeWord.2, ?_, ?_⟩
  · simp only [takeThisWord, takeWord_fst, h]
  · have hp := plain_takeWord c
    refine ⟨congrArg Plain.ahead hp, ?_, congrArg Plain.mark hp, congrArg Plain.settings hp⟩
    have ht := Plain.pastWord_text c.plain
    rw [← hp] at ht
    exact ht

/-! ## Every action -/

theorem forward_movesTo (c : Cursor) (n : Nat) : c.MovesTo (c.forward n).ahead (c.forward n) :=
  ⟨rfl, text_place .., rfl, rfl⟩

theorem moveTo_movesTo (c : Cursor) (n : Nat) : c.MovesTo (c.moveTo n).ahead (c.moveTo n) := by
  rw [moveTo]
  cases h : c.moveTo? n with
  | none => exact .refl c
  | some moved =>
    obtain ⟨l, r, htext, -, rfl⟩ := moveTo?_eq_some_iff.1 h
    exact ⟨rfl, text_place _ _ _ (by simpa using htext), rfl, rfl⟩

theorem goTo_movesTo (c : Cursor) (n : Nat) : c.MovesTo (c.goTo n).2.ahead (c.goTo n).2 := by
  have h := c.moveTo_movesTo n
  rw [moveTo] at h
  rw [goTo]
  cases hm : c.moveTo? n with
  | none => exact .refl c
  | some moved =>
    rw [hm] at h
    exact h

theorem scanned_movesTo (c : Cursor) : c.MovesTo c.scanned.2.ahead c.scanned.2 := by
  unfold scanned
  split <;> exact ⟨rfl, rfl, rfl, rfl⟩

theorem takeWord_movesTo (c : Cursor) : c.MovesTo c.takeWord.2.ahead c.takeWord.2 :=
  c.scanned_movesTo.trans (c.scanned.2.moveTo_movesTo c.scanned.1.stop)

theorem take?_movesTo (c : Cursor) (p : Pattern) :
    c.MovesTo (c.take? p).2.ahead (c.take? p).2 := by
  unfold take?
  split
  · exact .refl c
  · exact .refl c
  · exact c.forward_movesTo _

/-- No action but one touches what is saved, and none the text or the settings. -/
theorem perform_movesTo (c : Cursor) (a : Action) :
    (a = .setMark ∧ (c.perform a).2 = c.setMark) ∨
      c.MovesTo (c.perform a).2.ahead (c.perform a).2 := by
  cases a with
  | setMark => exact .inl ⟨rfl, rfl⟩
  | next | sees | decode | position | window | diagnostic | fail => exact .inr (.refl c)
  | takeChar | takeChars | takeWhile | dropSpace => exact .inr (c.forward_movesTo _)
  | goTo offset => exact .inr (c.goTo_movesTo offset)
  | goToMark =>
    refine .inr ?_
    rw [perform, goToMark]
    cases c.mark with
    | none => exact .refl c
    | some mark => exact c.moveTo_movesTo mark.offset
  | seesWord expected =>
    cases expected with
    | none => exact .inr (.refl c)
    | some expected => exact .inr c.scanned_movesTo
  | takeWord => exact .inr c.takeWord_movesTo
  | take? p => exact .inr (c.take?_movesTo p)
  | take p message =>
    have h := c.take?_movesTo p
    refine .inr ?_
    rw [perform, take]
    rcases hm : c.take? p with ⟨e | none | matched, c'⟩ <;> rw [hm] at h <;> exact h
  | takeThisWord expected =>
    have h := c.takeWord_movesTo
    refine .inr ?_
    rw [perform, takeThisWord]
    rcases hm : c.takeWord with ⟨word, after⟩
    rw [hm] at h
    simp only
    cases wordFault? expected word with
    | none => exact h
    | some message => exact h.trans (after.moveTo_movesTo c.offset)

theorem perform_text (c : Cursor) (a : Action) : (c.perform a).2.text = c.text := by
  rcases c.perform_movesTo a with ⟨-, ha⟩ | ha
  · rw [ha]
    rfl
  · exact ha.text

theorem perform_settings (c : Cursor) (a : Action) :
    (c.perform a).2.settings = c.settings := by
  rcases c.perform_movesTo a with ⟨-, ha⟩ | ha
  · rw [ha]
    rfl
  · exact ha.settings

end Cursor
end Descent
