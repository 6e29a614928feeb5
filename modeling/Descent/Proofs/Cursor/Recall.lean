import Descent.Cursor.Action
import Descent.Proofs.Cursor.Movement

/-!
# Recalled words do not show

* `Cursor.Plain`: a cursor without a recalled word, which scans every word afresh;
* `Cursor.Run`: actions one after the other, with runs of a copy of the cursor between them;
* `Cursor.Run.observe`: what the actions of a run answer and where they leave the cursor.

A cursor and its plain counterpart act alike (`perform_plain`), so they cannot be told apart by any
run (`observe_plain`). Looking ahead does nothing to a plain cursor, so it can be left out of a run.
-/

namespace Descent.Cursor

/-- A cursor without a recalled word. -/
structure Plain where
  behind : List Char
  ahead : List Char
  mark : Option Mark
  settings : Settings
deriving DecidableEq, Repr

/-- What there is to a cursor besides the word it recalls. -/
def plain (c : Cursor) : Plain := ⟨c.behind, c.ahead, c.mark, c.settings⟩

namespace Plain

/-- The cursor at the same place that has no word to recall. -/
def cursor (p : Plain) : Cursor :=
  { behind := p.behind, ahead := p.ahead, mark := p.mark, recalled := none, settings := p.settings
    recalled_eq := by simp }

/-- The next word after any space, in lower case. -/
def word (p : Plain) : String :=
  String.ofList (((p.ahead.dropWhile Text.isSpace).takeWhile Word.has).map Char.toLower)

/-- The cursor past space, a word and space. -/
def pastWord (p : Plain) : Plain :=
  let leading := p.ahead.takeWhile Text.isSpace
  let fromWord := p.ahead.dropWhile Text.isSpace
  let word := fromWord.takeWhile Word.has
  let trailing := (fromWord.dropWhile Word.has).takeWhile Text.isSpace
  { p with
    behind := (leading ++ word ++ trailing).reverse ++ p.behind
    ahead := (fromWord.dropWhile Word.has).dropWhile Text.isSpace }

/-- The scan of the next word: where it begins and ends, and what it finds. -/
def scan (p : Plain) : ScannedWord :=
  ⟨Text.size p.behind, Text.size p.pastWord.behind, p.word⟩

/-- Does what an action says. Words are scanned afresh. -/
def perform (p : Plain) : (a : Action) → Outcome Plain a.Answer
  | .seesWord (some expected) => (.ok (p.word == Word.lower expected), p)
  | .takeWord => (.ok p.word, p.pastWord)
  | .takeThisWord expected =>
    match wordFault? expected p.word with
    | none => (.ok p.word, p.pastWord)
    | some message => (.error (p.cursor.unexpected message), p)
  | a =>
    let (answer, c) := p.cursor.perform a
    (answer, c.plain)

theorem scan_eq_ofText (p : Plain) : p.scan = .ofText (Text.size p.behind) p.ahead := by
  simp only [scan, ScannedWord.ofText, word, pastWord, Text.size_append, Text.size_reverse,
    ScannedWord.mk.injEq, and_true, true_and]
  omega

/-- A text is the space in front of its first word, that word, the space after it and the rest. -/
theorem pastWord_text (p : Plain) :
    p.pastWord.behind.reverse ++ p.pastWord.ahead = p.behind.reverse ++ p.ahead := by
  simp [pastWord]

end Plain

variable (c : Cursor)

/-! ## The plain counterpart acts alike -/

theorem plain_place {behind ahead : List Char} (h : behind.reverse ++ ahead = c.text) :
    (c.place behind ahead h).plain = { c.plain with behind, ahead } := rfl

theorem offset_of_plain {c c' : Cursor} (h : c'.plain = c.plain) : c'.offset = c.offset :=
  congrArg (fun p => Text.size (Plain.behind p)) h

theorem scanned_fst : c.scanned.1 = c.plain.scan := by
  rw [Plain.scan_eq_ofText]
  unfold scanned
  split
  next word h =>
    obtain ⟨hrecalled, hstart⟩ := Option.filter_eq_some_iff.1 h
    have hfound := c.recalled_eq word hrecalled
    have hcut := Text.splitAt?_size c.behind.reverse c.ahead
    rw [Text.size_reverse] at hcut
    have hoffset : word.start = Text.size c.behind := by simpa [offset] using hstart
    rw [hoffset, ScannedWord.at?, hcut] at hfound
    simpa [plain] using hfound.symm
  next => rfl

theorem plain_scanned : c.scanned.2.plain = c.plain := by
  unfold scanned
  split <;> rfl

theorem plain_takeWord : c.takeWord.2.plain = c.plain.pastWord := by
  have hscan : c.scanned.1.stop = Text.size c.plain.pastWord.behind.reverse := by
    rw [scanned_fst, Text.size_reverse]
    rfl
  have htext : c.plain.pastWord.behind.reverse ++ c.plain.pastWord.ahead = c.scanned.2.text := by
    rw [Plain.pastWord_text, ← plain_scanned]
    rfl
  change (c.scanned.2.moveTo c.scanned.1.stop).plain = _
  rw [hscan, moveTo_size htext, plain_place, plain_scanned, List.reverse_reverse]
  rfl

theorem scanned_word : c.scanned.1.word = c.plain.word := by
  rw [scanned_fst]
  rfl

theorem takeWord_fst : c.takeWord.1 = c.plain.word := scanned_word c

/-- A cursor that turns back to where it was is there. -/
theorem plain_moveTo_offset {c after : Cursor} (htext : after.text = c.text)
    (hmark : after.mark = c.mark) (hsettings : after.settings = c.settings) :
    (after.moveTo c.offset).plain = c.plain := by
  have hoffset : c.offset = Text.size c.behind.reverse := (Text.size_reverse _).symm
  have hcut : c.behind.reverse ++ c.ahead = after.text := htext.symm
  rw [hoffset, moveTo_size hcut, plain_place, List.reverse_reverse]
  simp [plain, hmark, hsettings]

theorem plain_moveTo? (offset : Nat) :
    (c.plain.cursor.moveTo? offset).map plain = (c.moveTo? offset).map plain := by
  cases h : c.moveTo? offset with
  | some moved =>
    obtain ⟨l, r, hcut, rfl, rfl⟩ := moveTo?_eq_some_iff.1 h
    have hcut' : l ++ r = c.plain.cursor.text := hcut
    rw [moveTo?_size hcut']
    rfl
  | none =>
    cases h' : c.plain.cursor.moveTo? offset with
    | none => rfl
    | some moved =>
      obtain ⟨l, r, hcut, rfl, rfl⟩ := moveTo?_eq_some_iff.1 h'
      have hcut' : l ++ r = c.text := hcut
      rw [moveTo?_size hcut'] at h
      cases h

/-- Both cursors find the place, or neither does. -/
private theorem moveTo?_cases (offset : Nat) :
    (c.moveTo? offset = none ∧ c.plain.cursor.moveTo? offset = none) ∨
      ∃ moved moved', c.moveTo? offset = some moved ∧
        c.plain.cursor.moveTo? offset = some moved' ∧ moved'.plain = moved.plain := by
  have h := plain_moveTo? c offset
  cases hmoved : c.moveTo? offset with
  | none =>
    rw [hmoved, Option.map_none, Option.map_eq_none_iff] at h
    exact .inl ⟨rfl, h⟩
  | some moved =>
    rw [hmoved, Option.map_some] at h
    obtain ⟨moved', hmoved', heq⟩ := Option.map_eq_some_iff.1 h
    exact .inr ⟨moved, moved', rfl, hmoved', heq⟩

theorem plain_moveTo {offset : Nat} :
    (c.plain.cursor.moveTo offset).plain = (c.moveTo offset).plain := by
  unfold moveTo
  rcases moveTo?_cases c offset with ⟨h, h'⟩ | ⟨moved, moved', h, h', heq⟩
  · rw [h, h']
    rfl
  · rw [h, h']
    exact heq

theorem goTo_plain {offset : Nat} :
    (c.plain.cursor.goTo offset).1 = (c.goTo offset).1 ∧
      (c.plain.cursor.goTo offset).2.plain = (c.goTo offset).2.plain := by
  unfold goTo
  rcases moveTo?_cases c offset with ⟨h, h'⟩ | ⟨moved, moved', h, h', heq⟩
  · rw [h, h']
    exact ⟨rfl, rfl⟩
  · rw [h, h']
    exact ⟨rfl, heq⟩

/-- The place in the text is all that a message about it shows. -/
theorem unexpected_congr {c d : Cursor} (h : c.plain = d.plain) (message : String) :
    c.unexpected message = d.unexpected message := by
  change c.plain.cursor.unexpected message = d.plain.cursor.unexpected message
  rw [h]

theorem take?_plain (p : Pattern) :
    (c.plain.cursor.take? p).1 = (c.take? p).1 ∧
      (c.plain.cursor.take? p).2.plain = (c.take? p).2.plain := by
  have hahead : c.plain.cursor.ahead = c.ahead := rfl
  unfold take?
  rw [hahead]
  split <;> exact ⟨rfl, rfl⟩

theorem take_plain (p : Pattern) (message : Option String) :
    (c.plain.cursor.take p message).1 = (c.take p message).1 ∧
      (c.plain.cursor.take p message).2.plain = (c.take p message).2.plain := by
  have h := take?_plain c p
  unfold take
  rcases h₁ : c.plain.cursor.take? p with ⟨answer₁, d₁⟩
  rcases h₂ : c.take? p with ⟨answer₂, d₂⟩
  rw [h₁, h₂] at h
  obtain ⟨rfl, hd⟩ := h
  rcases answer₁ with e | none | matched
  · exact ⟨rfl, hd⟩
  · exact ⟨congrArg Except.error (unexpected_congr hd _), hd⟩
  · exact ⟨rfl, hd⟩

theorem takeThisWord_plain (expected : Option String) :
    c.plain.perform (.takeThisWord expected) =
      ((c.takeThisWord expected).1, (c.takeThisWord expected).2.plain) := by
  simp only [Plain.perform, takeThisWord, takeWord_fst]
  cases wordFault? expected c.plain.word with
  | none =>
    rw [← plain_takeWord]
    rfl
  | some message =>
    have htext : c.takeWord.2.text = c.text := by
      have h := Plain.pastWord_text c.plain
      rw [← plain_takeWord] at h
      exact h
    have hback : (c.takeWord.2.moveTo c.offset).plain = c.plain :=
      plain_moveTo_offset htext (congrArg Plain.mark (plain_takeWord c))
        (congrArg Plain.settings (plain_takeWord c))
    refine Prod.ext ?_ hback.symm
    exact congrArg Except.error (unexpected_congr (d := c.takeWord.2.moveTo c.offset) hback.symm _)

/-- A cursor and its plain counterpart give one answer and end alike. -/
theorem perform_plain (a : Action) :
    c.plain.perform a = ((c.perform a).1, (c.perform a).2.plain) := by
  cases a with
  | goTo offset => exact Prod.ext (goTo_plain c).1 (goTo_plain c).2
  | goToMark =>
    simp only [Plain.perform, perform, goToMark]
    cases hm : c.mark with
    | none => simp [plain, Plain.cursor, hm]
    | some mark =>
      have hm' : c.plain.cursor.mark = some mark := hm
      simp [hm', plain_moveTo]
  | seesWord expected =>
    cases expected with
    | none => rfl
    | some expected =>
      simp only [Plain.perform, perform, seesWord, scanned_word, plain_scanned]
  | takeWord => exact Prod.ext (congrArg Except.ok (takeWord_fst c).symm) (plain_takeWord c).symm
  | takeThisWord expected => exact takeThisWord_plain c expected
  | take? p => exact Prod.ext (take?_plain c p).1 (take?_plain c p).2
  | take p message => exact Prod.ext (take_plain c p message).1 (take_plain c p message).2
  | _ => rfl

/-- What is recalled is what a plain cursor finds that moves to where the scan began. -/
theorem scan_of_mem_recalled {c : Cursor} {word : ScannedWord} (h : word ∈ c.recalled) :
    ∃ p, c.plain.perform (.goTo word.start) = (.ok (), p) ∧ p.scan = word := by
  obtain ⟨⟨l, r⟩, hcut, hword⟩ := Option.map_eq_some_iff.1 (c.recalled_eq word h)
  obtain ⟨htext, hstart⟩ := Text.splitAt?_eq_some_iff.1 hcut
  have htext' : l ++ r = c.text := htext
  refine ⟨{ c.plain with behind := l.reverse, ahead := r }, ?_, ?_⟩
  · rw [perform_plain, ← hstart, perform, goTo_size htext']
    rfl
  · rw [Plain.scan_eq_ofText, Text.size_reverse, hstart]
    exact hword

/-! ## Runs -/

/-- Actions in their order. A fork first runs a copy of the cursor, then goes on with the cursor. -/
inductive Run
  | done
  | act (a : Action) (rest : Run)
  | fork (copy rest : Run)

/-- An action, its answer and where it leaves the cursor. -/
structure Observation where
  action : Action
  answer : Except Failure action.Answer
  after : Plain

/-- Whether an action only looks at the text. -/
def Action.looks : Action → Bool
  | next | sees _ | seesWord _ | position | window _ => true
  | _ => false

namespace Run

section
variable {σ : Type} (perform : σ → (a : Action) → Outcome σ a.Answer)

/-- What the actions of a run answer, and what is seen of the states they leave. -/
def observe (view : σ → Plain) : Run → σ → List Observation
  | done, _ => []
  | act a rest, s => ⟨a, (perform s a).1, view (perform s a).2⟩ :: observe view rest (perform s a).2
  | fork copy rest, s => observe view copy s ++ observe view rest s

/-- The states that a run comes through. -/
def states : Run → σ → List σ
  | done, s => [s]
  | act a rest, s => s :: states rest (perform s a).2
  | fork copy rest, s => states copy s ++ states rest s

end

/-- The run that is left when every action that only looks is left out. -/
def withoutLooks : Run → Run
  | done => done
  | act a rest => if a.looks then rest.withoutLooks else act a rest.withoutLooks
  | fork copy rest => fork copy.withoutLooks rest.withoutLooks

theorem observe_plain (run : Run) (c : Cursor) :
    run.observe Plain.perform id c.plain = run.observe Cursor.perform plain c := by
  induction run generalizing c with
  | done => rfl
  | act a rest ih => simp only [observe, perform_plain, ih, id]
  | fork copy rest ihc ihr => simp only [observe, ihc, ihr]

end Run

theorem Plain.perform_of_looks {a : Action} (h : a.looks) (p : Plain) : (p.perform a).2 = p := by
  cases a with
  | seesWord expected => cases expected <;> rfl
  | next | sees | position | window => rfl
  | _ => cases h

theorem Run.observe_withoutLooks (run : Run) (p : Plain) :
    run.withoutLooks.observe Plain.perform id p =
      (run.observe Plain.perform id p).filter (!·.action.looks) := by
  induction run generalizing p with
  | done => rfl
  | act a rest ih =>
    by_cases h : a.looks
    · simp only [withoutLooks, h, if_true, observe, List.filter_cons, Plain.perform_of_looks h, ih]
      simp
    · simp [withoutLooks, h, observe, ih]
  | fork copy rest ihc ihr => simp only [withoutLooks, observe, ihc, ihr, List.filter_append]

/-- **The recalled word does not show.** A run of a cursor answers and moves as the same run of a
plain cursor does, whatever word the cursor recalls at any time is what a plain cursor scans at the
same offset, and actions that only look can be put into a run anywhere. -/
theorem recalled_unobservable (c : Cursor) (run : Run) :
    run.observe perform plain c = run.observe Plain.perform id c.plain ∧
    (∀ c' ∈ run.states perform c, ∀ word ∈ c'.recalled,
      ∃ p, c'.plain.perform (.goTo word.start) = (.ok (), p) ∧ p.scan = word) ∧
    ∀ run' : Run, run'.withoutLooks = run.withoutLooks →
      (run'.observe perform plain c).filter (!·.action.looks) =
        (run.observe perform plain c).filter (!·.action.looks) := by
  refine ⟨(run.observe_plain c).symm, fun c' _ word h => scan_of_mem_recalled h, ?_⟩
  intro run' hlooks
  rw [← Run.observe_plain, ← Run.observe_plain, ← Run.observe_withoutLooks,
    ← Run.observe_withoutLooks, hlooks]

/-- A word that is looked at, then taken by a copy and by the cursor itself. -/
theorem recalled_unobservable_let :
    ∃ c' ∈ (Run.act (.seesWord (some "let")) <| .fork (.act .takeWord .done) <|
        .act .takeWord .done).states perform (ofText " Let it"),
      c'.recalled = some ⟨0, 5, "let"⟩ ∧
        ∃ p, c'.plain.perform (.goTo 0) = (.ok (), p) ∧ p.scan = ⟨0, 5, "let"⟩ := by
  have h := (recalled_unobservable (ofText " Let it") <| .act (.seesWord (some "let")) <|
    .fork (.act .takeWord .done) <| .act .takeWord .done).2.1
  have hm : ((ofText " Let it").perform (.seesWord (some "let"))).2 ∈
      (Run.act (.seesWord (some "let")) <| .fork (.act .takeWord .done) <|
        .act .takeWord .done).states perform (ofText " Let it") := by simp [Run.states]
  exact ⟨_, hm, by decide +kernel, h _ hm ⟨0, 5, "let"⟩ (by decide +kernel)⟩

end Descent.Cursor
