import Descent.Proofs.Cursor.Run
import Descent.Proofs.Text.Boundary

/-!
# Looking ahead and reading agree

* `Cursor.Passes`: from one cursor to another some text has been read.

Looking and reading ask one question of what is ahead: how far a pattern goes, or what the next word
is. So the answers of a cursor that looks tell whether another cursor at the same place can read,
and this one may recall another word, or none.
-/

namespace Descent.Cursor

variable {c d d' : Cursor} {p : Pattern} {message : Option String} {m word : String}

/-- A text was ahead of a cursor, and it is behind the other one. -/
structure Passes (c : Cursor) (read : String) (c' : Cursor) : Prop where
  ahead : c.ahead = read.toList ++ c'.ahead
  offset : c'.offset = c.offset + read.utf8ByteSize
  text : c'.text = c.text

theorem passes_forward (c : Cursor) (n : Nat) :
    c.Passes (String.ofList (c.ahead.take n)) (c.forward n) where
  ahead := by
    rw [String.toList_ofList]
    exact (List.take_append_drop n c.ahead).symm
  offset := by rw [offset_forward, ← Text.size_toList, String.toList_ofList]
  text := text_place ..

/-! ## Patterns -/

/-- It can always be told whether a pattern is ahead, unless it is the name of a production. -/
theorem exists_sees (c : Cursor) (hp : ∀ name, p ≠ .production name) :
    ∃ found, c.sees p = .ok found := by
  cases p with
  | literal s => exact ⟨_, rfl⟩
  | regex b => exact ⟨_, rfl⟩
  | production name => exact absurd rfl (hp name)

theorem sees_iff_take? (h : c.ahead = d.ahead) :
    c.sees p = .ok true ↔ ∃ m d', d.take? p = (.ok (some m), d') := by
  rw [sees, take?, h]
  rcases p.extent? d.ahead with e | _ | n <;> simp [Except.map]

theorem take?_passes (h : d.take? p = (.ok (some m), d')) : d.Passes m d' := by
  unfold take? at h
  rcases hextent : p.extent? d.ahead with e | _ | n <;> rw [hextent] at h <;> cases h
  exact d.passes_forward n

/-- What has to be there is taken as what may be there is. -/
theorem take_eq_ok_iff : d.take p message = (.ok m, d') ↔ d.take? p = (.ok (some m), d') := by
  rw [take]
  rcases d.take? p with ⟨e | _ | found, after⟩ <;> simp

/-! ## Words -/

/-- An expected word is taken as any word is, if there is no fault in it. -/
theorem takeThisWord_eq_ok_iff {expected : Option String} :
    d.takeThisWord expected = (.ok word, d') ↔
      d.takeWord = (word, d') ∧ wordFault? expected word = none := by
  unfold takeThisWord
  rcases d.takeWord with ⟨found, after⟩
  simp only
  cases hfault : wordFault? expected found with
  | none =>
    simp only [Prod.mk.injEq, Except.ok.injEq]
    exact ⟨fun h => ⟨h, h.1 ▸ hfault⟩, And.left⟩
  | some message =>
    simp only [Prod.mk.injEq, reduceCtorEq, false_and, false_iff, not_and]
    rintro ⟨rfl, -⟩ hnone
    cases hfault.symm.trans hnone

theorem exists_takeThisWord_iff {expected : Option String} :
    (∃ word d', d.takeThisWord expected = (.ok word, d')) ↔
      wordFault? expected d.plain.word = none := by
  simp only [takeThisWord_eq_ok_iff]
  constructor
  · rintro ⟨word, d', htake, hfault⟩
    rwa [← takeWord_fst, htake]
  · intro hfault
    exact ⟨d.takeWord.1, d.takeWord.2, rfl, by rwa [takeWord_fst]⟩

/-- A character of a word that is next begins a word that is not empty. -/
theorem word_ne_of_seesWord (h : (c.seesWord none).1 = true) : c.plain.word ≠ "" := by
  cases hahead : c.ahead with
  | nil => simp [seesWord, hahead] at h
  | cons ch rest =>
    have hhas : Word.has ch := by simpa [seesWord, hahead] using h
    have hword : c.plain.word =
        String.ofList (((ch :: rest).takeWhile Word.has).map Char.toLower) := by
      simp [Plain.word, plain, hahead, not_isSpace_of_has hhas]
    simp [hword, hhas]

/-- **Looking ahead predicts reading.** Of two cursors at one place, let one look and the other
read. A pattern is ahead exactly if it can be taken, whether it may or has to be there. What is
taken is the front of what was ahead, and the cursor moves by its bytes. A word is seen exactly if
the next word is the same in lower case, and exactly then it can be taken as an expected word, which
is to take the next word. Any word can be taken exactly if the next word is not empty, and so when
a character of a word is next. -/
theorem looking_predicts {c d : Cursor} (h : d.plain = c.plain) :
    (∀ p message,
      ((∀ name, p ≠ .production name) → ∃ found, c.sees p = .ok found) ∧
      (c.sees p = .ok true ↔ ∃ m d', d.take? p = (.ok (some m), d')) ∧
      (c.sees p = .ok true ↔ ∃ m d', d.take p message = (.ok m, d')) ∧
      ∀ m d', d.take? p = (.ok (some m), d') →
        d.take p message = (.ok m, d') ∧ d.Passes m d') ∧
    (∀ w,
      ((c.seesWord (some w)).1 = true ↔ ∃ word d', d.takeThisWord (some w) = (.ok word, d')) ∧
      ((c.seesWord (some w)).1 = true ↔ c.takeWord.1 = Word.lower w)) ∧
    (∀ expected word d', d.takeThisWord expected = (.ok word, d') →
      d.takeWord = (word, d') ∧ c.takeWord.1 = word ∧ c.takeWord.2.offset = d'.offset) ∧
    ((c.seesWord none).1 = true → ∃ word d', d.takeThisWord none = (.ok word, d')) ∧
    ((∃ word d', d.takeThisWord none = (.ok word, d')) ↔ c.takeWord.1 ≠ "") := by
  have hahead : c.ahead = d.ahead := congrArg Plain.ahead h.symm
  have hany : (∃ word d', d.takeThisWord none = (.ok word, d')) ↔ c.takeWord.1 ≠ "" := by
    rw [exists_takeThisWord_iff, takeWord_fst, h]
    simp [wordFault?]
  refine ⟨fun p message => ⟨c.exists_sees, sees_iff_take? hahead, ?_, fun m d' htake =>
    ⟨take_eq_ok_iff.2 htake, take?_passes htake⟩⟩, fun w => ⟨?_, ?_⟩, ?_, ?_, hany⟩
  · simp only [take_eq_ok_iff]
    exact sees_iff_take? hahead
  · rw [exists_takeThisWord_iff, h, seesWord_some]
    simp [wordFault?]
  · rw [seesWord_some, takeWord_fst, beq_iff_eq]
  · intro expected word d' htake
    obtain ⟨hword, -⟩ := takeThisWord_eq_ok_iff.1 htake
    have hplain : c.takeWord.2.plain = d'.plain := by
      rw [plain_takeWord, ← h, ← plain_takeWord, hword]
    refine ⟨hword, ?_, offset_of_plain hplain⟩
    rw [takeWord_fst, ← h, ← takeWord_fst, hword]
  · intro hnext
    rw [hany, takeWord_fst]
    exact word_ne_of_seesWord hnext

/-- A word is looked at with a Kelvin sign in place of its first letter. The cursor that has looked
recalls the word and takes it, and the text behind it. -/
theorem looking_predicts_kelvin :
    let c := ofText " Key=é"
    let d := (c.seesWord (some "\u212aey")).2
    d.plain = c.plain ∧ c.recalled = none ∧ d.recalled = some ⟨0, 4, "key"⟩ ∧
      (c.seesWord (some "\u212aey")).1 = true ∧
      ∃ word d', d.takeThisWord (some "\u212aey") = (.ok word, d') ∧ c.takeWord.1 = word ∧
        c.takeWord.2.offset = d'.offset ∧ d'.sees (.literal "=é") = .ok true ∧
        ∃ m d'', d'.take? (.literal "=é") = (.ok (some m), d'') ∧ d'.Passes m d'' := by
  intro c d
  have hplain : d.plain = c.plain := by decide +kernel
  have hsees : (c.seesWord (some "\u212aey")).1 = true := by decide +kernel
  obtain ⟨-, hwords, htakes, -⟩ := looking_predicts hplain
  obtain ⟨word, d', htake⟩ := (hwords _).1.1 hsees
  obtain ⟨-, hword, hoffset⟩ := htakes _ _ _ htake
  obtain rfl : (d.takeThisWord (some "\u212aey")).2 = d' := congrArg Prod.snd htake
  have hsees' : (d.takeThisWord (some "\u212aey")).2.sees (.literal "=é") = .ok true := rfl
  obtain ⟨hpatterns, -⟩ := looking_predicts (c := (d.takeThisWord (some "\u212aey")).2) rfl
  obtain ⟨-, hiff, -, hpasses⟩ := hpatterns (.literal "=é") none
  obtain ⟨m, d'', htake'⟩ := hiff.1 hsees'
  exact ⟨hplain, rfl, by decide +kernel, hsees, word, _, htake, hword, hoffset, hsees', m, d'',
    htake', (hpasses m d'' htake').2⟩

end Descent.Cursor
