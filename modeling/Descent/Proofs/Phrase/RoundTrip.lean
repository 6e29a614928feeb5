import Descent.Proofs.Phrase.Parsing
import Descent.Proofs.Session.RoundTrip
import Descent.Proofs.Text.Digit
import Mathlib.Data.List.TakeWhile

/-!
# Round trips of phrases

* `IsWord`: a word as it is read, in the case that the options want.

All productions but the one that is written as something else come back from the text of their
node, if the options stay the same. Words come back because they are read in one case, numbers
because what is no number of 63 bits has been read as zero.
-/

namespace Descent.Phrase

open Session (roundTripsWith_of_restores)

variable {upper : Bool} {levels : Nat} {cs l r rest : List Char} {c : Char} {word : String}

/-! ## Words -/

/-- The lower case of a word, which is what is scanned. -/
def lowered (l : List Char) : String :=
  String.ofList (l.map Char.toLower)

theorem toList_cased (upper : Bool) (l : List Char) :
    (cased upper (lowered l)).toList =
      l.map fun c => if upper then c.toLower.toUpper else c.toLower := by
  cases upper <;> simp [cased, capitals, lowered]

/-- A word that is read: characters of words, in the case that they get again. -/
structure IsWord (upper : Bool) (word : String) : Prop where
  ne_nil : word.toList ≠ []
  has : ∀ c ∈ word.toList, Word.has c
  cased_eq : cased upper (lowered word.toList) = word

theorem isWord_cased (upper : Bool) (hne : l ≠ []) (hl : ∀ c ∈ l, Word.has c) :
    IsWord upper (cased upper (lowered l)) where
  ne_nil := by simpa [toList_cased] using hne
  has := by
    rw [toList_cased]
    intro c hc
    obtain ⟨d, hd, rfl⟩ := List.mem_map.1 hc
    have hlower := has_toLower (hl d hd)
    split
    · exact has_toUpper hlower
    · exact hlower
  cased_eq := by
    -- The lower case is the same whichever case a word was given.
    refine congrArg (cased upper) ?_
    rw [lowered, toList_cased, lowered, List.map_map]
    refine congrArg String.ofList (List.map_congr_left fun c hc => ?_)
    cases upper
    · exact toLower_toLower (hl c hc)
    · exact (toLower_toUpper (has_toLower (hl c hc))).trans (toLower_toLower (hl c hc))

theorem isWord_of_read (h : readAnyWord upper cs = some (word, rest)) : IsWord upper word := by
  obtain ⟨⟨scanned, _⟩, hread, heq⟩ := Option.map_eq_some_iff.1 h
  cases heq
  unfold readThisWord at hread
  split at hread
  next hfault =>
    cases hread
    have hne := wordFault?_none_iff.1 hfault
    rw [nextWord, String.toList_ofList] at hne
    refine isWord_cased upper (fun hnil => hne (by rw [hnil]; rfl)) fun c hc => ?_
    exact List.mem_takeWhile_imp hc
  next => cases hread

namespace IsWord

theorem stops (h : IsWord upper word) (r : List Char) : Stops Text.isSpace (word.toList ++ r) :=
  stops_of_has h.ne_nil h.has r

theorem starts (h : IsWord upper word) (r : List Char) : startsWord (word.toList ++ r) :=
  startsWord_append h.ne_nil h.has r

/-- A word is read again, with the space behind it. -/
theorem read_append (h : IsWord upper word) (hr : Stops Word.has r) :
    readAnyWord upper (word.toList ++ r) = some (word, r.dropWhile Text.isSpace) := by
  have hfault : Cursor.wordFault? none (lowered word.toList) = none := by
    rw [wordFault?_none_iff]
    simpa [lowered] using h.ne_nil
  rw [readAnyWord, readThisWord_append h.ne_nil h.has hr hfault]
  exact congrArg (fun w => some (w, r.dropWhile Text.isSpace)) h.cased_eq

end IsWord

theorem restores_anyWord (upper : Bool) : (readAnyWord upper).Restores fun word _ => word := by
  intro cs word rest h options
  have hread := (isWord_of_read h).read_append (r := []) nofun
  rwa [List.append_nil] at hread

/-! ## Numbers and letters -/

theorem digitsValue_lt (digits : List Char) : digitsValue digits < 2 ^ 63 := by
  unfold digitsValue
  cases h : (Text.decimal? digits).filter (· < 2 ^ 63) with
  | none => decide
  | some n => exact of_decide_eq_true (Option.filter_eq_some_iff.1 h).2

theorem restores_digits : readDigits.Restores fun n _ => toString n := by
  intro cs n rest h options
  obtain ⟨⟨digits, _⟩, -, heq⟩ := Option.map_eq_some_iff.1 h
  cases heq
  have hlt := digitsValue_lt digits
  generalize digitsValue digits = n at hlt
  have hdecimal := Text.decimal?_toDigits n
  have hdigits : ∀ c ∈ Nat.toDigits 10 n, CharSet.digits.holds c := fun c hc =>
    holds_digits_of_isDigit (Text.isDigit_of_decimal? hdecimal hc)
  have hsome := someOf?_append (r := []) Nat.toDigits_ne_nil hdigits nofun
  have hfits : (some n).filter (fun n => decide (n < Nat.pow 2 63)) = some n :=
    Option.filter_eq_some_iff.2 ⟨rfl, decide_eq_true hlt⟩
  have hvalue : digitsValue (Nat.toDigits 10 n) = n := by
    rw [digitsValue, hdecimal, hfits]
    rfl
  rw [List.append_nil] at hsome
  change readDigits (toString n).toList = some (n, [])
  rw [Nat.toString_eq_ofList_toDigits, String.toList_ofList, readDigits, hsome]
  exact congrArg (fun n => some (n, [])) hvalue

theorem restores_letters : readLetters.Restores fun word _ => word := by
  intro cs word rest h options
  obtain ⟨⟨l, _⟩, hspan, heq⟩ := Option.map_eq_some_iff.1 h
  cases heq
  obtain ⟨hne, hl⟩ := mem_of_someOf? hspan
  have hsome := someOf?_append (r := []) hne hl nofun
  rw [List.append_nil] at hsome
  rw [String.toList_ofList, readLetters, hsome]
  rfl

/-! ## Greetings and sentences -/

theorem readThisWord_hello (word : String) (hword : Stops Text.isSpace word.toList) :
    readThisWord (some "hello") ("hello " ++ word).toList = some ("hello", word.toList) := by
  have htext : ("hello " ++ word).toList = "hello".toList ++ ' ' :: word.toList := by
    rw [String.toList_append]
    rfl
  have hhas : ∀ c ∈ "hello".toList, Word.has c := List.all_eq_true.1 (by decide)
  have hlower : String.ofList ("hello".toList.map Char.toLower) = "hello" := by decide
  have hfault : Cursor.wordFault? (some "hello") "hello" = none := by
    have hequal : ("hello" == Word.lower "hello") = true := by decide
    simp only [Cursor.wordFault?, hequal, if_true]
  have hspace : (' ' :: word.toList).dropWhile Text.isSpace = word.toList := hword.dropWhile
  rw [htext, readThisWord_append (by decide) hhas (.cons rfl) (hlower ▸ hfault), hlower, hspace]

theorem restores_greeting (upper : Bool) (levels : Nat) :
    (readGreeting upper levels).Restores fun word _ => "hello " ++ word := by
  intro cs word rest h options
  obtain ⟨⟨_, cs₁⟩, -, h⟩ := Option.bind_eq_some_iff.1 h
  obtain ⟨⟨_, _⟩, hread, heq⟩ := Option.bind_eq_some_iff.1 h
  cases heq
  have hword := isWord_of_read (deeper_eq_some_iff.1 hread).2
  have hagain := (restores_anyWord upper).deeper levels hread options
  have hstops := hword.stops []
  rw [List.append_nil] at hstops
  rw [readGreeting, readThisWord_hello word hstops]
  simp only [Option.bind_eq_bind, Option.bind_some, hagain]
  rfl

/-- What stands behind a word of a sentence, if these words follow. -/
def afterWord : List String → List Char
  | [] => ['.']
  | word :: words => ' ' :: (sentenceSource (word :: words)).toList

theorem toList_sentenceSource (word : String) (words : List String) :
    (sentenceSource (word :: words)).toList = word.toList ++ afterWord words := by
  cases words with
  | nil => simp [sentenceSource, afterWord]
  | cons next words =>
    simp only [sentenceSource, afterWord, String.toList_append, String.toList_intercalate,
      List.map_cons, List.intercalate_cons_cons, List.append_assoc]
    rfl

theorem stops_afterWord (words : List String) : Stops Word.has (afterWord words) := by
  cases words <;> exact .cons rfl

section
variable {words : List String} (h : ∀ word ∈ words, IsWord upper word)
include h

theorem dropWhile_afterWord :
    (afterWord words).dropWhile Text.isSpace = (sentenceSource words).toList := by
  cases words with
  | nil => rfl
  | cons word words =>
    change ((sentenceSource (word :: words)).toList).dropWhile Text.isSpace = _
    rw [toList_sentenceSource]
    exact ((h word (.head _)).stops _).dropWhile

/-- The words of a sentence are read again, up to the full stop. -/
theorem many_sentenceSource (hlevels : words = [] ∨ 0 < levels) :
    Reader.many (Reader.seriesTurn (deeper levels (readAnyWord upper)) startsWord)
      (sentenceSource words).toList = some (words, ['.']) := by
  induction words with
  | nil => exact Reader.many_of_stop rfl
  | cons word words ih =>
    have hpos : 0 < levels := hlevels.resolve_left nofun
    obtain ⟨hword, hwords⟩ := List.forall_mem_cons.1 h
    -- A word is read with the space behind it, so the next round begins at the next word.
    have hread : deeper levels (readAnyWord upper) (word.toList ++ afterWord words) =
        some (word, (sentenceSource words).toList) := by
      rw [deeper_eq_some_iff, ← dropWhile_afterWord hwords]
      exact ⟨hpos, hword.read_append (stops_afterWord words)⟩
    have hturn : Reader.seriesTurn (deeper levels (readAnyWord upper)) startsWord
        (word.toList ++ afterWord words) = some (.next word, (sentenceSource words).toList) := by
      rw [Reader.seriesTurn, (hword.stops _).dropWhile, if_pos (hword.starts _), hread]
      rfl
    have hlt := Reader.Shrinks.deeper (shrinks_anyWord upper) levels hread
    rw [toList_sentenceSource, Reader.many_of_next hturn hlt, ih hwords (.inr hpos)]
    rfl

end

theorem isWord_of_many {words : List String}
    (h : Reader.many (Reader.seriesTurn (deeper levels (readAnyWord upper)) startsWord) cs =
      some (words, rest)) : (words = [] ∨ 0 < levels) ∧ ∀ word ∈ words, IsWord upper word := by
  refine Reader.many_induct (P := fun _ words _ =>
    (words = [] ∨ 0 < levels) ∧ ∀ word ∈ words, IsWord upper word) ?_ ?_ ?_ h
  · intro _ _ _
    exact ⟨.inl rfl, nofun⟩
  · intro _ _ _ hturn
    obtain ⟨⟨⟩, -⟩ | ⟨_, ⟨⟩, -⟩ := Reader.seriesTurn_cases hturn
  · rintro _ word _ words _ hturn ⟨-, hwords⟩
    obtain ⟨⟨⟩, -⟩ | ⟨_, ⟨⟩, hread⟩ := Reader.seriesTurn_cases hturn
    obtain ⟨hpos, hread⟩ := deeper_eq_some_iff.1 hread
    exact ⟨.inr hpos, List.forall_mem_cons.2 ⟨isWord_of_read hread, hwords⟩⟩

theorem restores_sentence (upper : Bool) (levels : Nat) :
    (readSentence upper levels).Restores fun words _ => sentenceSource words := by
  intro cs words rest h options
  obtain ⟨⟨_, cs₁⟩, hmany, h⟩ := Option.bind_eq_some_iff.1 h
  obtain ⟨⟨_, _⟩, -, heq⟩ := Option.bind_eq_some_iff.1 h
  cases heq
  obtain ⟨hlevels, hwords⟩ := isWord_of_many hmany
  rw [readSentence, many_sentenceSource hwords hlevels]
  rfl

/-! ## Nested phrases -/

theorem readAnyWord_false : readAnyWord false = readThisWord none := by
  funext cs
  exact Option.map_id_apply

/-- A phrase is read in parentheses where it is read with a level less. -/
theorem readNested_inner {nest : Nest} (h : readNested levels cs = some (nest, ')' :: r)) :
    readNested (levels + 1) ('(' :: cs) = some (.inner nest, r) := by
  have hopen : literalSpan? "(" ('(' :: cs) = some (['('], cs) :=
    (literalSpan?_singleton rfl _).trans (if_pos rfl)
  have hclose : literalSpan? ")" (')' :: r) = some ([')'], r) :=
    (literalSpan?_singleton rfl _).trans (if_pos rfl)
  rw [readNested, hopen]
  simp only [Option.bind_eq_bind, Option.bind_some, h, hclose]
  rfl

/-- No word begins with a parenthesis, so a word is not read as a phrase in parentheses. -/
theorem readNested_word (hne : l ≠ []) (hl : ∀ c ∈ l, Word.has c) (hr : Stops Word.has r) :
    readNested (levels + 1) (l ++ r) = some (.word (lowered l), r.dropWhile Text.isSpace) := by
  have hopen : literalSpan? "(" (l ++ r) = none := by
    obtain ⟨c, l, rfl⟩ := List.exists_cons_of_ne_nil hne
    have hword : c ≠ '(' := by
      rintro rfl
      cases hl _ (.head _)
    exact (literalSpan?_singleton rfl _).trans (if_neg hword)
  have hfault : Cursor.wordFault? none (lowered l) = none := by
    rw [wordFault?_none_iff]
    simpa [lowered] using hne
  rw [readNested, hopen, readThisWord_append hne hl hr hfault]
  rfl

/-- A nested phrase is read again in front of a closing parenthesis and at the end. -/
theorem readNested_append {nest : Nest} (h : readNested levels cs = some (nest, rest))
    (hr : ∀ c ∈ r.head?, c = ')') :
    readNested levels (nest.source.toList ++ r) = some (nest, r) := by
  induction levels generalizing cs nest rest r with
  | zero => cases h
  | succ levels ih =>
    unfold readNested at h
    split at h
    next l cs₁ _ =>
      obtain ⟨⟨nest, cs₂⟩, hinner, h⟩ := Option.bind_eq_some_iff.1 h
      obtain ⟨⟨_, _⟩, -, heq⟩ := Option.bind_eq_some_iff.1 h
      cases heq
      -- What follows the phrase inside is a closing parenthesis, so the hypothesis holds again.
      have hagain := ih hinner (r := ')' :: r) (by rintro _ ⟨⟩; rfl)
      have htext : (Nest.inner nest).source.toList ++ r =
          '(' :: (nest.source.toList ++ ')' :: r) := by
        simp [Nest.source]
      rw [htext]
      exact readNested_inner hagain
    next =>
      obtain ⟨⟨word, _⟩, hread, heq⟩ := Option.map_eq_some_iff.1 h
      cases heq
      rw [← readAnyWord_false] at hread
      have hword := isWord_of_read hread
      have hstops : Stops Word.has r := fun c hc => hr c hc ▸ rfl
      have hspace : Stops Text.isSpace r := fun c hc => hr c hc ▸ rfl
      change readNested (levels + 1) (word.toList ++ r) = _
      rw [readNested_word hword.ne_nil hword.has hstops, hspace.dropWhile]
      exact congrArg (fun w => some (Nest.word w, r)) hword.cased_eq

theorem restores_nested (levels : Nat) :
    (readNested levels).Restores fun nest _ => nest.source := by
  intro cs nest rest h options
  have hagain := readNested_append h (r := []) nofun
  rwa [List.append_nil] at hagain

theorem restores_nothing : Reader.Restores (fun cs => some ((), cs)) fun _ _ => "" := by
  intro cs x rest h options
  rfl

/-! ## Productions -/

/-- **Round trip.** A node that a new session parses with some options comes back from how it is
written with the same, whatever the settings, unless it is one that is written as something else. -/
theorem roundTripsWith {text kind : String} {settings : Settings} {options : Options}
    {s s' : Session} {id : NodeId} (h : Session.withSettings text grammar settings = .ok s)
    (hparse : s.parse grammar kind options = (.ok id, s')) (hkind : kind ≠ "Garbled") :
    Session.RoundTripsWith grammar settings kind options s' id := by
  have hmem := Session.mem_kinds_of_parse hparse
  simp only [Grammar.kinds, grammar, List.map_cons, List.map_nil, List.mem_cons,
    List.not_mem_nil, or_false] at hmem
  rcases hmem with rfl | rfl | rfl | rfl | rfl | rfl | rfl | rfl
  · exact roundTripsWith_of_restores parses_anyWord ((restores_anyWord _).deeper _) h hparse
  · exact roundTripsWith_of_restores parses_number (restores_digits.deeper _) h hparse
  · exact roundTripsWith_of_restores parses_letters (restores_letters.deeper _) h hparse
  · exact roundTripsWith_of_restores (parses_greeting _) ((restores_greeting _ _).deeper _) h hparse
  · exact roundTripsWith_of_restores (parses_sentence _) ((restores_sentence _ _).deeper _) h hparse
  · exact roundTripsWith_of_restores (parses_nested _) (restores_nested _) h hparse
  · exact roundTripsWith_of_restores parses_nothing (restores_nothing.deeper _) h hparse
  · exact absurd rfl hkind

/-- A sentence in capitals. -/
theorem roundTripsWith_sentence :
    let s := Session.ofText "One  two\nthree . rest" grammar
    let upper : Options := some (.object [("upper", .bool true)])
    ∃ id s', s.parse grammar "Sentence" upper = (.ok id, s') ∧
      grammar.write s'.tree id upper = "ONE TWO THREE." ∧
      Session.RoundTripsWith grammar {} "Sentence" upper s' id := by
  intro s upper
  have hs : Session.withSettings "One  two\nthree . rest" grammar {} = .ok s := rfl
  have hok : (s.parse grammar "Sentence" upper).1.toOption.isSome := by decide +kernel
  have hwrite : (s.parse grammar "Sentence" upper).1.toOption.map
      ((grammar.write (s.parse grammar "Sentence" upper).2.tree · upper)) =
        some "ONE TWO THREE." := by decide +kernel
  rcases hparse : s.parse grammar "Sentence" upper with ⟨_ | id, s'⟩
  · rw [hparse] at hok
    cases hok
  · rw [hparse] at hwrite
    exact ⟨id, s', rfl, Option.some.inj hwrite, roundTripsWith hs hparse (by decide)⟩

end Descent.Phrase
