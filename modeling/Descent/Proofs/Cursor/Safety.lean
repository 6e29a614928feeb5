import Descent.Proofs.Cursor.Pointer

/-!
# Every offset of a cursor is a boundary

* `Cursor.Marked`: the offset that a cursor has saved is a boundary of its text;
* `Cursor.offsets`: all byte offsets that a cursor keeps.

What a marked cursor does, it also does as a byte offset, without ever failing
(`perform?_pointer`), and it stays marked (`Marked.perform`).
-/

namespace Descent.Cursor

open Text (Boundary)

variable {c c' : Cursor} {l r : List Char}

/-- The saved offset, if there is one, is a boundary of the text. -/
def Marked (c : Cursor) : Prop :=
  ∀ mark ∈ c.mark, Boundary c.text mark.offset

/-! ## Places -/

theorem offset_boundary (c : Cursor) : Boundary c.text c.offset :=
  ⟨c.behind.reverse, c.ahead, rfl, Text.size_reverse _⟩

theorem pointer_place {behind ahead : List Char} (h : behind.reverse ++ ahead = c.text) :
    (c.place behind ahead h).pointer = { c.pointer with offset := Text.size behind } := by
  rw [pointer, text_place]
  rfl

theorem pointer_forward (c : Cursor) (n : Nat) : (c.forward n).pointer =
    { c.pointer with offset := c.offset + Text.size (c.ahead.take n) } := by
  refine (pointer_place _).trans (congrArg (fun n => { c.pointer with offset := n }) ?_)
  rw [Text.size_append, Text.size_reverse, Nat.add_comm]
  rfl

theorem pointer_forward_takeWhile (c : Cursor) (p : Char → Bool) :
    (c.forward (c.ahead.takeWhile p).length).pointer =
      { c.pointer with offset := c.offset + Text.size (c.ahead.takeWhile p) } := by
  rw [pointer_forward, ← List.prefix_iff_eq_take.1 (List.takeWhile_prefix p)]

theorem forward_add (c : Cursor) (m n : Nat) : (c.forward m).forward n = c.forward (m + n) := by
  simp [forward, place, List.take_add]

theorem forward_of_nil (h : c.ahead = []) (n : Nat) : c.forward n = c := by
  obtain ⟨behind, ahead, mark, recalled, settings, hrecalled⟩ := c
  subst h
  simp [forward, place]

/-- At a boundary a cursor moves as a pointer does. -/
theorem moveTo?_pointer {n : Nat} (h : Boundary c.text n) :
    c.pointer.moveTo? n = some (c.moveTo n).pointer := by
  obtain ⟨l, r, htext, rfl⟩ := h
  have hsome : (Text.splitAt? (Text.size l) c.pointer.text).isSome :=
    Text.boundary_iff_isSome.1 ⟨l, r, htext, rfl⟩
  rw [Pointer.moveTo?, if_pos hsome, moveTo_size htext, pointer_place, Text.size_reverse]

/-! ## Parts of the text -/

theorem size_behind (c : Cursor) : Text.size c.behind.reverse = c.pointer.offset :=
  Text.size_reverse _

theorem upTo?_pointer (c : Cursor) :
    Text.upTo? c.pointer.offset c.pointer.text = some c.behind.reverse :=
  Text.upTo?_of_append rfl c.size_behind

theorem skip?_pointer (c : Cursor) (p : Char → Bool) :
    Text.skip? p c.pointer.offset c.pointer.text =
      some (c.offset + Text.size (c.ahead.takeWhile p)) :=
  Text.skip?_of_append p rfl c.size_behind

/-- A recalled word begins and ends at a boundary. -/
theorem boundary_recalled {word : ScannedWord} (h : word ∈ c.recalled) :
    Boundary c.text word.start ∧ Boundary c.text word.stop := by
  obtain ⟨⟨l, r⟩, hcut, hword⟩ := Option.map_eq_some_iff.1 (c.recalled_eq word h)
  obtain ⟨htext, hstart⟩ := Text.splitAt?_eq_some_iff.1 hcut
  let p : Plain := { c.plain with behind := l.reverse, ahead := r }
  have hp : p.behind.reverse ++ p.ahead = c.text :=
    (congrArg (· ++ r) (List.reverse_reverse l)).trans htext
  have hscan : p.scan = word := by
    rw [Plain.scan_eq_ofText, Text.size_reverse, hstart]
    exact hword
  rw [← hscan]
  exact ⟨⟨_, _, hp, Text.size_reverse _⟩, ⟨_, _, p.pastWord_text.trans hp, Text.size_reverse _⟩⟩

theorem scanned_mem_recalled (c : Cursor) : c.scanned.1 ∈ c.scanned.2.recalled := by
  unfold scanned
  split
  next h => exact (Option.filter_eq_some_iff.1 h).1
  next => rfl

namespace Pointer

theorem rest?_pointer (c : Cursor) : c.pointer.rest? = some c.ahead :=
  Text.from?_of_append rfl c.size_behind

theorem next?_pointer (c : Cursor) : c.pointer.next? = some c.next? := by
  rw [next?, rest?_pointer]
  rfl

theorem takeChar?_pointer (c : Cursor) :
    c.pointer.takeChar? = some (c.takeChar.1, c.takeChar.2.pointer) := by
  rw [takeChar?, next?_pointer, takeChar, Cursor.next?, pointer_forward]
  cases c.ahead with
  | nil => rfl
  | cons ch rest => rfl

theorem takeChars?_pointer (n : Nat) (c : Cursor) :
    c.pointer.takeChars? n = some ((c.takeChars n).1, (c.takeChars n).2.pointer) := by
  induction n generalizing c with
  | zero =>
    rw [takeChars?, takeChars, pointer_forward]
    rfl
  | succ n ih =>
    rw [takeChars?, takeChar?_pointer]
    cases hahead : c.ahead with
    | nil =>
      rw [takeChars, takeChar, Cursor.next?, hahead, forward_of_nil hahead, forward_of_nil hahead]
      rfl
    | cons ch rest =>
      have hnext := ih (c.forward 1)
      rw [takeChars, forward_add, Nat.add_comm 1 n] at hnext
      rw [takeChars, takeChar, Cursor.next?, hahead]
      change (takeChars? n (c.forward 1).pointer).bind _ = _
      rw [hnext]
      have hrest : (c.forward 1).ahead = rest := congrArg (List.drop 1) hahead
      rw [hrest]
      rfl

theorem dropSpace?_pointer (c : Cursor) : c.pointer.dropSpace? = some c.dropSpace.pointer := by
  rw [dropSpace?, skip?_pointer, dropSpace, Cursor.takeWhile, pointer_forward_takeWhile]
  rfl

/-- Whatever a predicate says, it makes a cursor take some of the next characters. -/
theorem takeWhile?_pointer (c : Cursor) (q : Nat → Char → Bool) :
    c.pointer.takeWhile? q =
      some (String.ofList (Text.passed q c.offset c.ahead),
        (c.forward (Text.passed q c.offset c.ahead).length).pointer) := by
  have hpass : Text.pass? q c.pointer.text c.pointer.offset =
      some (c.offset + Text.size (Text.passed q c.offset c.ahead)) :=
    Text.pass?_of_append q rfl c.size_behind
  obtain ⟨rest, hrest⟩ := Text.passed_prefix q c.offset c.ahead
  have hslice : Text.slice? c.pointer.offset
      (c.offset + Text.size (Text.passed q c.offset c.ahead)) c.pointer.text =
        some (Text.passed q c.offset c.ahead) :=
    Text.slice?_of_append (congrArg (c.behind.reverse ++ ·) hrest) c.size_behind rfl
  have htake := List.prefix_iff_eq_take.1 (Text.passed_prefix q c.offset c.ahead)
  rw [takeWhile?, pointer_forward, ← htake]
  simp only [hpass, hslice, Option.bind_eq_bind, Option.bind_some]
  rfl

/-! ## Words -/

theorem scanned?_pointer (c : Cursor) :
    c.pointer.scanned? = some (c.scanned.1, c.scanned.2.pointer) := by
  let first := c.offset + Text.size (c.ahead.takeWhile Text.isSpace)
  let word := (c.ahead.dropWhile Text.isSpace).takeWhile Word.has
  let rest := (c.ahead.dropWhile Text.isSpace).dropWhile Word.has
  have hspace : c.behind.reverse ++ c.ahead.takeWhile Text.isSpace ++ (word ++ rest) = c.text := by
    simp [word, rest, Cursor.text]
  have hfirst : Text.size (c.behind.reverse ++ c.ahead.takeWhile Text.isSpace) = first := by
    simp [first, Cursor.offset]
  have hlast : Text.skip? Word.has first c.text = some (first + Text.size word) := by
    have h := Text.skip?_of_append Word.has hspace hfirst
    rwa [List.takeWhile_append_dropWhile] at h
  have hstop : Text.skip? Text.isSpace (first + Text.size word) c.text =
      some (first + Text.size word + Text.size (rest.takeWhile Text.isSpace)) := by
    rw [← List.append_assoc] at hspace
    exact Text.skip?_of_append _ hspace (by rw [Text.size_append, hfirst])
  have hfound : Text.slice? first (first + Text.size word) c.text = some word :=
    Text.slice?_of_append hspace hfirst rfl
  have hoffset : c.pointer.offset = c.offset := rfl
  have htext : c.pointer.text = c.text := rfl
  have hrecalled : c.pointer.recalled = c.recalled := rfl
  unfold scanned? Cursor.scanned
  rw [skip?_pointer, hrecalled, hoffset, htext]
  cases c.recalled.filter (·.start == c.offset) with
  | some word => rfl
  | none =>
    have hfirst' : c.offset + Text.size (c.ahead.takeWhile Text.isSpace) = first := rfl
    simp only [hfirst', hlast, hstop, hfound, Option.bind_eq_bind, Option.bind_some]
    rfl

theorem takeWord?_pointer (c : Cursor) :
    c.pointer.takeWord? = some (c.takeWord.1, c.takeWord.2.pointer) := by
  rw [takeWord?, scanned?_pointer]
  change (c.scanned.2.pointer.moveTo? c.scanned.1.stop).bind _ = _
  rw [moveTo?_pointer (boundary_recalled c.scanned_mem_recalled).2]
  rfl

theorem seesWord?_pointer (c : Cursor) (expected : Option String) :
    c.pointer.seesWord? expected =
      some ((c.seesWord expected).1, (c.seesWord expected).2.pointer) := by
  cases expected with
  | none =>
    rw [seesWord?, next?_pointer]
    rfl
  | some expected =>
    rw [seesWord?, scanned?_pointer]
    rfl

/-! ## Positions and windows -/

theorem position?_pointer (c : Cursor) : c.pointer.position? = some c.position := by
  obtain ⟨l, line, hline, hsize⟩ := Text.boundary_breaks c.behind.reverse
  have hcut : Text.splitAt? (Text.breaks c.behind.reverse).lineStart c.behind.reverse =
      some (l, line) := Text.splitAt?_eq_some_iff.2 ⟨hline, hsize⟩
  have hfrom : Text.from? (Text.breaks c.behind.reverse).lineStart c.behind.reverse = some line :=
    Text.from?_of_append hline hsize
  unfold position? Cursor.position
  rw [upTo?_pointer, next?_pointer]
  simp only [Option.bind_eq_bind, Option.bind_some, Cursor.next?, hfrom, hcut, Option.map_some,
    Option.getD_some]
  split <;> rfl

theorem minus?_of_le {m n : Nat} (h : n ≤ m) : minus? m n = some (m - n) := if_pos h

theorem range?_of_le {α : Type} {start size : Nat} {xs : List α} (h : start + size ≤ xs.length) :
    range? start (start + size) xs = some ((xs.drop start).take size) := by
  rw [range?, if_pos ⟨Nat.le_add_right .., h⟩, Nat.add_sub_cancel_left]

theorem window?_pointer (c : Cursor) (count : Nat) :
    c.pointer.window? count = some (c.window count) := by
  have hlines : 1 ≤ (Text.lines c.text).length :=
    List.length_pos_iff.2 (Text.lines_ne_nil c.text)
  have hlist : Text.lines? c.pointer.text = some (Text.lines c.text) := Text.lines?_eq c.text
  have hline : minus? c.position.line 1 = some (c.position.line - 1) :=
    minus?_of_le (Nat.le_add_left ..)
  unfold window? Cursor.window
  generalize Text.lines c.text = lines at hlines hlist ⊢
  have hshown : min count lines.length ≤ lines.length := Nat.min_le_right ..
  split
  · rfl
  · rw [hlist, position?_pointer]
    simp only [Option.bind_eq_bind, Option.bind_some, hline, minus?_of_le hlines,
      minus?_of_le hshown]
    rw [range?_of_le (by omega), minus?_of_le (by omega)]
    rfl

theorem diagnostic?_pointer (c : Cursor) (message : String) :
    c.pointer.diagnostic? message = some (c.diagnostic message) := by
  rw [diagnostic?, position?_pointer]
  change (c.pointer.window? c.settings.contextLines).bind _ = _
  rw [window?_pointer]
  rfl

theorem unexpected?_pointer (c : Cursor) (message : String) :
    c.pointer.unexpected? message = some (c.unexpected message) := by
  rw [unexpected?, diagnostic?_pointer]
  rfl

theorem decode?_pointer (c : Cursor) (hex : String) :
    c.pointer.decode? hex = some (c.decode hex) := by
  unfold decode? Cursor.decode
  cases codePoint? hex with
  | some ch => rfl
  | none =>
    rw [unexpected?_pointer]
    rfl

/-! ## Patterns -/

theorem matchSize?_eq (pattern : Pattern) (cs : List Char) :
    matchSize? pattern cs = pattern.size? cs := by
  cases pattern with
  | literal s =>
    rw [matchSize?, Pattern.size?, Pattern.extent?]
    split
    next h =>
      obtain ⟨rest, rfl⟩ := List.isPrefixOf_iff_prefix.1 h
      simp [Except.map, Text.size_toList]
    next => rfl
  | regex | production => rfl

theorem sees?_pointer (c : Cursor) (pattern : Pattern) :
    c.pointer.sees? pattern = some (c.sees pattern) := by
  rw [sees?, rest?_pointer, Cursor.sees]
  change some ((matchSize? pattern c.ahead).map _) = _
  rw [matchSize?_eq, Pattern.size?]
  cases pattern.extent? c.ahead with
  | error e => rfl
  | ok extent => cases extent <;> rfl

theorem tryTake?_pointer (c : Cursor) (pattern : Pattern) :
    c.pointer.tryTake? pattern = some ((c.take? pattern).1, (c.take? pattern).2.pointer) := by
  rw [tryTake?, rest?_pointer, Cursor.take?]
  simp only [Option.bind_eq_bind, Option.bind_some, matchSize?_eq, Pattern.size?]
  rcases pattern.extent? c.ahead with e | none | n
  · rfl
  · rfl
  · have hmatched : Text.upTo? (Text.size (c.ahead.take n)) c.ahead = some (c.ahead.take n) :=
      Text.upTo?_of_append (List.take_append_drop n c.ahead) rfl
    have hboundary : (Text.splitAt? (c.offset + Text.size (c.ahead.take n)) c.text).isSome := by
      rw [← Text.boundary_iff_isSome]
      refine ⟨c.behind.reverse ++ c.ahead.take n, c.ahead.drop n, ?_, ?_⟩
      · rw [List.append_assoc, List.take_append_drop]
        rfl
      · rw [Text.size_append, size_behind]
        rfl
    have hmoved : c.pointer.moveTo? (c.pointer.offset + Text.size (c.ahead.take n)) =
        some (c.forward n).pointer := by
      rw [pointer_forward]
      exact if_pos hboundary
    simp only [Except.map, Option.map_some, hmatched, hmoved, Option.bind_some]
    rfl

theorem take?_pointer (c : Cursor) (pattern : Pattern) (message : Option String) :
    c.pointer.take? pattern message =
      some ((c.take pattern message).1, (c.take pattern message).2.pointer) := by
  rw [take?, tryTake?_pointer, Cursor.take]
  rcases c.take? pattern with ⟨e | none | matched, c'⟩
  · rfl
  · change (c'.pointer.unexpected? _).bind _ = _
    rw [unexpected?_pointer]
    rfl
  · rfl

theorem takeThisWord?_pointer (c : Cursor) (expected : Option String) :
    c.pointer.takeThisWord? expected =
      some ((c.takeThisWord expected).1, (c.takeThisWord expected).2.pointer) := by
  have htext : c.takeWord.2.text = c.text := by
    have h := Plain.pastWord_text c.plain
    rw [← plain_takeWord] at h
    exact h
  rw [takeThisWord?, takeWord?_pointer, Cursor.takeThisWord]
  rcases hword : c.takeWord with ⟨word, after⟩
  rw [hword] at htext
  have hback : after.pointer.moveTo? c.pointer.offset = some (after.moveTo c.offset).pointer :=
    moveTo?_pointer (htext ▸ c.offset_boundary)
  simp only [Option.bind_eq_bind, Option.bind_some]
  cases wordFault? expected word with
  | none => rfl
  | some message =>
    simp only [hback, Option.bind_some, unexpected?_pointer]
    rfl

/-! ## Moving to an offset -/

theorem goTo_pointer (c : Cursor) (offset : Nat) :
    c.pointer.goTo offset = ((c.goTo offset).1, (c.goTo offset).2.pointer) := by
  have hsize : Text.size c.pointer.text = c.size := by
    rw [Cursor.size, ← Text.size_reverse c.behind, ← Text.size_append]
    rfl
  rw [goTo, Cursor.goTo]
  cases hmoved : c.moveTo? offset with
  | some moved =>
    obtain ⟨l, r, htext, hl, -⟩ := moveTo?_eq_some_iff.1 hmoved
    have hmoveTo : c.moveTo offset = moved := by rw [moveTo, hmoved]; rfl
    rw [moveTo?_pointer ⟨l, r, htext, hl⟩, hmoveTo]
  | none =>
    have hnone : c.pointer.moveTo? offset = none := by
      rw [moveTo?, if_neg]
      intro h
      obtain ⟨l, r, htext, rfl⟩ := Text.boundary_iff_isSome.2 h
      have htext' : l ++ r = c.text := htext
      rw [moveTo?_size htext'] at hmoved
      cases hmoved
    rw [hnone, hsize]

theorem goToMark_pointer (h : c.Marked) :
    c.pointer.goToMark = (c.goToMark.1, c.goToMark.2.pointer) := by
  have hmark : c.pointer.mark = c.mark := rfl
  rw [goToMark, Cursor.goToMark, hmark]
  cases hm : c.mark with
  | none => rfl
  | some mark =>
    obtain ⟨l, r, htext, hl⟩ := h mark hm
    have hplace :=
      pointer_place (c := c) (show l.reverse.reverse ++ r = c.text by simpa using htext)
    rw [Text.size_reverse, hl] at hplace
    simp only
    rw [← hl, moveTo_size htext, hplace, hl, ← hm, ← hmark]

/-- **Nothing fails.** What an action of a marked cursor does is what byte arithmetic does. -/
theorem perform?_pointer (h : c.Marked) (a : Action) :
    c.pointer.perform? a = some ((c.perform a).1, (c.perform a).2.pointer) := by
  cases a with
  | next => rw [perform?, next?_pointer]; rfl
  | takeChar => rw [perform?, takeChar?_pointer]; rfl
  | takeChars n => rw [perform?, takeChars?_pointer]; rfl
  | goTo offset => exact congrArg some (goTo_pointer c offset)
  | takeWhile p =>
    rw [perform?, takeWhile?_pointer, Text.passed_const]
    rfl
  | dropSpace => rw [perform?, dropSpace?_pointer]; rfl
  | setMark => rfl
  | goToMark => exact congrArg some (goToMark_pointer h)
  | sees p => rw [perform?, sees?_pointer]; rfl
  | seesWord expected => rw [perform?, seesWord?_pointer]; rfl
  | takeWord => rw [perform?, takeWord?_pointer]; rfl
  | take? p => exact tryTake?_pointer c p
  | take p message => exact take?_pointer c p message
  | takeThisWord expected => exact takeThisWord?_pointer c expected
  | decode hex => rw [perform?, decode?_pointer]; rfl
  | position => rw [perform?, position?_pointer]; rfl
  | window count => rw [perform?, window?_pointer]; rfl
  | diagnostic message => rw [perform?, diagnostic?_pointer]; rfl
  | fail message => rw [perform?, unexpected?_pointer]; rfl

end Pointer

/-! ## Offsets that are kept -/

/-- The byte offsets that a cursor keeps: its place, what it has saved, and where the word that it
recalls begins and ends. -/
def offsets (c : Cursor) : List Nat :=
  c.offset :: (c.mark.toList.map (·.offset) ++
    c.recalled.toList.flatMap fun word => [word.start, word.stop])

theorem Marked.boundary (h : c.Marked) {n : Nat} (hn : n ∈ c.offsets) : Boundary c.text n := by
  rw [offsets, List.mem_cons, List.mem_append, List.mem_map, List.mem_flatMap] at hn
  rcases hn with rfl | ⟨mark, hmark, rfl⟩ | ⟨word, hword, hn⟩
  · exact c.offset_boundary
  · exact h mark (Option.mem_toList.1 hmark)
  · obtain ⟨hstart, hstop⟩ := boundary_recalled (Option.mem_toList.1 hword)
    simp only [List.mem_cons, List.not_mem_nil, or_false] at hn
    rcases hn with rfl | rfl
    · exact hstart
    · exact hstop

/-! ## Runs -/

theorem Marked.perform (h : c.Marked) (a : Action) :
    (c.perform a).2.Marked ∧ (c.perform a).2.text = c.text ∧
      (c.perform a).2.settings = c.settings := by
  refine ⟨?_, c.perform_text a, c.perform_settings a⟩
  intro mark hmark
  rw [c.perform_text]
  rcases c.perform_movesTo a with ⟨-, ha⟩ | ha
  · rw [ha] at hmark
    cases hmark
    exact c.offset_boundary
  · rw [ha.mark] at hmark
    exact h mark hmark

theorem Marked.states (h : c.Marked) (run : Run) (hc : c' ∈ run.states Cursor.perform c) :
    c'.Marked ∧ c'.text = c.text ∧ c'.settings = c.settings := by
  induction run generalizing c with
  | done =>
    obtain rfl := List.mem_singleton.1 hc
    exact ⟨h, rfl, rfl⟩
  | act a rest ih =>
    rcases List.mem_cons.1 hc with rfl | hc
    · exact ⟨h, rfl, rfl⟩
    · obtain ⟨hnext, htext, hsettings⟩ := h.perform a
      obtain ⟨hc', htext', hsettings'⟩ := ih hnext hc
      exact ⟨hc', htext'.trans htext, hsettings'.trans hsettings⟩
  | fork copy rest ihc ihr =>
    rcases List.mem_append.1 hc with hc | hc
    · exact ihc h hc
    · exact ihr h hc

theorem eq_of_withSettings {text : String} {settings : Settings}
    (h : withSettings text settings = .ok c) : c = { ofText text with settings } := by
  rw [withSettings] at h
  cases hcheck : settings.check with
  | error e =>
    rw [hcheck] at h
    cases h
  | ok =>
    rw [hcheck] at h
    cases h
    rfl

/-- **No offset leaves the text.** Every cursor in a run keeps boundaries of its text only, and the
text and settings that it was made with. Nothing that it does next makes the byte arithmetic behind
it fail; a predicate may even change its mind as it goes, and makes it take characters in front. -/
theorem run_safe {text : String} {settings : Settings} (h : withSettings text settings = .ok c)
    (run : Run) (hc : c' ∈ run.states perform c) :
    c'.text = text.toList ∧ c'.settings = settings ∧
      (∀ n ∈ c'.offsets, n ≤ text.utf8ByteSize ∧ String.Pos.Raw.IsValid text ⟨n⟩) ∧
      (∀ a, c'.pointer.perform? a = some ((c'.perform a).1, (c'.perform a).2.pointer)) ∧
      ∀ q : Nat → Char → Bool, ∃ k, c'.pointer.takeWhile? q =
        some (String.ofList (c'.ahead.take k), (c'.forward k).pointer) := by
  have hnew := eq_of_withSettings h
  have hmarked : c.Marked := by
    rw [hnew]
    rintro mark ⟨⟩
  obtain ⟨hmarked', htext, hsettings⟩ := hmarked.states run hc
  rw [hnew] at htext hsettings
  refine ⟨htext, hsettings, ?_, Pointer.perform?_pointer hmarked', ?_⟩
  · intro n hn
    have hboundary := hmarked'.boundary hn
    rw [htext] at hboundary
    refine ⟨?_, Text.boundary_toList.1 hboundary⟩
    obtain ⟨l, r, happend, rfl⟩ := hboundary
    rw [← Text.size_toList, ← show l ++ r = text.toList from happend, Text.size_append]
    exact Nat.le_add_right ..
  · intro q
    refine ⟨(Text.passed q c'.offset c'.ahead).length, ?_⟩
    rw [Pointer.takeWhile?_pointer,
      ← List.prefix_iff_eq_take.1 (Text.passed_prefix q c'.offset c'.ahead)]

/-- Saves the place behind a letter, fails to move into that letter, and takes a word. -/
private def accentRun : Run :=
  .act .takeChar <| .act .setMark <| .act (.goTo 1) <| .act (.seesWord (some "let")) <|
    .act .takeWord .done

/-- A letter of two bytes, with a mark behind it and a word that ends before another one. -/
theorem run_safe_accents :
    ∃ c' ∈ accentRun.states perform (ofText "é let ü"), c'.offsets = [7, 2, 2, 7] ∧
      (∀ n ∈ c'.offsets, n ≤ 9 ∧ String.Pos.Raw.IsValid "é let ü" ⟨n⟩) ∧
      ∀ a, c'.pointer.perform? a = some ((c'.perform a).1, (c'.perform a).2.pointer) := by
  have hmem : (accentRun.states perform (ofText "é let ü"))[5] ∈
      accentRun.states perform (ofText "é let ü") := List.getElem_mem _
  have hnew : withSettings "é let ü" {} = .ok (ofText "é let ü") := rfl
  have h := run_safe hnew accentRun hmem
  exact ⟨_, hmem, by decide +kernel, h.2.2.1, h.2.2.2.1⟩

end Descent.Cursor
