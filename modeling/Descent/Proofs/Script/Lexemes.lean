import Descent.Proofs.Cursor.Run
import Descent.Script.Value

/-!
# Lexemes of scripts

* `nameSpan?`, `numberSpan?`, `openSpan?`, `callSpan?`, `plainSpan?`, `bracedSpan?`: what the
  patterns of scripts take from the front of a text, as recursions over the text.

Each is the run of the automaton of its pattern, so looking for a pattern and taking it can be
reasoned about without the automaton.
-/

namespace Descent.Script

/-! ## Classes of characters -/

/-- The characters that can begin a name. -/
def startsName (c : Char) : Bool :=
  c.isAlpha || c == '_'

theorem holds_nameStart (c : Char) : nameStart.holds c = startsName c := by
  have hset : nameStart = ⟨[(65, 90), (95, 95), (97, 122)]⟩ := by rfl
  rw [Bool.eq_iff_iff, hset]
  simp [startsName, CharSet.holds, CharSet.within, isAlpha_iff, ← Char.toNat_inj]
  omega

/-- A name goes on with the characters of words. -/
theorem holds_namePart (c : Char) : namePart.holds c = Word.has c := by
  have hset : namePart = ⟨[(48, 57), (65, 90), (95, 95), (97, 122)]⟩ := by rfl
  rw [Bool.eq_iff_iff, hset]
  simp [CharSet.holds, CharSet.within, Word.has_iff, isAlpha_iff]
  omega

theorem has_of_startsName {c : Char} (h : startsName c) : Word.has c := by
  simp only [startsName, Word.has, Char.isAlphanum, Bool.or_eq_true] at h ⊢
  exact h.imp_left .inl

theorem holds_digits_of_isSpace {c : Char} (h : Text.isSpace c) :
    CharSet.digits.holds c = false := by
  simp [Text.isSpace] at h
  rw [Bool.eq_false_iff]
  simp [CharSet.digits, CharSet.holds, CharSet.within, Text.decimalDigits]
  omega

private theorem toNat_le_last (c : Char) : c.toNat ≤ 0x10FFFF := by
  have hval : c.toNat = c.val.toNat := rfl
  have hvalid := c.valid
  simp only [UInt32.isValidChar, Nat.isValidChar] at hvalid
  omega

/-- The characters that stand for themselves in a text literal. -/
def isPlain (c : Char) : Bool :=
  c != '"' && c != '\\'

theorem holds_plain (c : Char) : (CharSet.ofList ['"', '\\']).complement.holds c = isPlain c := by
  have hset : (CharSet.ofList ['"', '\\']).complement = ⟨[(0, 33), (35, 91), (93, 0x10FFFF)]⟩ := by
    rfl
  have hc := toNat_le_last c
  rw [Bool.eq_iff_iff, hset]
  simp [isPlain, CharSet.holds, CharSet.within, ← Char.toNat_inj]
  omega

/-- The characters between the braces of an escape. -/
def isBraced (c : Char) : Bool :=
  c != '\x7d' && c != '"'

theorem holds_braced (c : Char) :
    (CharSet.ofList ['\x7d', '"']).complement.holds c = isBraced c := by
  have hset : (CharSet.ofList ['\x7d', '"']).complement =
      ⟨[(0, 33), (35, 124), (126, 0x10FFFF)]⟩ := by rfl
  have hc := toNat_le_last c
  rw [Bool.eq_iff_iff, hset]
  simp [isBraced, CharSet.holds, CharSet.within, ← Char.toNat_inj]
  omega

/-! ## Spans -/

/-- What a name takes. -/
def nameSpan? : List Char → Option (List Char × List Char)
  | [] => none
  | c :: cs =>
    if startsName c then some (c :: cs.takeWhile Word.has, cs.dropWhile Word.has) else none

/-- A point and digits, or nothing. -/
def fractionSpan : List Char → List Char × List Char
  | '.' :: cs =>
    match someOf? CharSet.digits.holds cs with
    | some (digits, rest) => ('.' :: digits, rest)
    | none => ([], '.' :: cs)
  | cs => ([], cs)

/-- Digits and perhaps a fraction. -/
def unsignedSpan? (cs : List Char) : Option (List Char × List Char) :=
  (someOf? CharSet.digits.holds cs).map fun (whole, cs) =>
    (whole ++ (fractionSpan cs).1, (fractionSpan cs).2)

/-- What a number takes. -/
def numberSpan? : List Char → Option (List Char × List Char)
  | '-' :: cs => (unsignedSpan? cs).map fun (l, r) => ('-' :: l, r)
  | cs => unsignedSpan? cs

/-- What space and an opening parenthesis take. -/
def openSpan? (cs : List Char) : Option (List Char × List Char) :=
  match cs.dropWhile Text.isSpace with
  | '(' :: rest => some (cs.takeWhile Text.isSpace ++ ['('], rest)
  | _ => none

/-- What a name, space and an opening parenthesis take. -/
def callSpan? (cs : List Char) : Option (List Char × List Char) :=
  (nameSpan? cs).bind fun (name, cs) => (openSpan? cs).map fun (l, r) => (name ++ l, r)

/-- What characters that stand for themselves take. -/
def plainSpan? : List Char → Option (List Char × List Char) :=
  someOf? isPlain

/-- What stands between braces, which may be nothing. -/
def bracedSpan? (cs : List Char) : Option (List Char × List Char) :=
  some (cs.takeWhile isBraced, cs.dropWhile isBraced)

theorem append_of_nameSpan? {cs l r : List Char} (h : nameSpan? cs = some (l, r)) :
    l ++ r = cs := by
  cases cs with
  | nil => cases h
  | cons c cs =>
    simp only [nameSpan?] at h
    split at h
    · cases h
      rw [List.cons_append, List.takeWhile_append_dropWhile]
    · cases h

theorem append_fractionSpan (cs : List Char) : (fractionSpan cs).1 ++ (fractionSpan cs).2 = cs := by
  unfold fractionSpan
  split
  · split
    next h => rw [List.cons_append, append_of_someOf? h]
    next => rfl
  · rfl

theorem append_of_unsignedSpan? {cs l r : List Char} (h : unsignedSpan? cs = some (l, r)) :
    l ++ r = cs := by
  obtain ⟨⟨whole, tail⟩, hwhole, heq⟩ := Option.map_eq_some_iff.1 h
  cases heq
  rw [List.append_assoc, append_fractionSpan, append_of_someOf? hwhole]

theorem append_of_numberSpan? {cs l r : List Char} (h : numberSpan? cs = some (l, r)) :
    l ++ r = cs := by
  unfold numberSpan? at h
  split at h
  · obtain ⟨⟨l', r'⟩, hspan, heq⟩ := Option.map_eq_some_iff.1 h
    cases heq
    rw [List.cons_append, append_of_unsignedSpan? hspan]
  · exact append_of_unsignedSpan? h

theorem append_of_openSpan? {cs l r : List Char} (h : openSpan? cs = some (l, r)) :
    l ++ r = cs := by
  unfold openSpan? at h
  split at h
  next rest hrest =>
    cases h
    have := List.takeWhile_append_dropWhile (p := Text.isSpace) (l := cs)
    rwa [hrest, List.append_cons] at this
  next => cases h

theorem append_of_callSpan? {cs l r : List Char} (h : callSpan? cs = some (l, r)) :
    l ++ r = cs := by
  obtain ⟨⟨name, rest⟩, hname, hopen⟩ := Option.bind_eq_some_iff.1 h
  obtain ⟨⟨l', r'⟩, hspan, heq⟩ := Option.map_eq_some_iff.1 hopen
  cases heq
  rw [List.append_assoc, append_of_openSpan? hspan, append_of_nameSpan? hname]

/-! ## The patterns -/

private theorem fronts_name_loop (before : Option Char) :
    namePattern.regex.automaton.Fronts [1] before ⟨[(namePart, 1)], true⟩ := by
  intro after
  rfl

theorem spans_name : (Pattern.regex namePattern).Spans nameSpan? := by
  refine spans_of_run (fun c after => rfl) (fun cs => ?_) append_of_nameSpan?
  have hread : namePattern.regex.automaton.Fronts [4] none ⟨[(nameStart, 1)], false⟩ :=
    fun after => rfl
  have hpart : namePart.holds = Word.has := funext holds_namePart
  refine (Automaton.run_read hread cs).trans ?_
  cases cs with
  | nil => rfl
  | cons c cs =>
    simp only [Automaton.run_loop fronts_name_loop, nameSpan?, hpart, holds_nameStart]
    cases startsName c <;> rfl

section
variable (before : Option Char) (cs : List Char)

private theorem fronts_number_loop :
    numberPattern.regex.automaton.Fronts [1] before ⟨[(.digits, 1)], true⟩ := by
  intro after
  rfl

private theorem run_number_fraction :
    numberPattern.regex.automaton.run [2] before cs =
      (someOf? CharSet.digits.holds cs).map (·.1.length) := by
  have hread : numberPattern.regex.automaton.Fronts [2] before ⟨[(.digits, 1)], false⟩ :=
    fun after => rfl
  rw [Automaton.run_read hread cs]
  cases cs with
  | nil => rfl
  | cons c cs =>
    simp only [Automaton.run_loop fronts_number_loop, someOf?_cons]
    cases CharSet.digits.holds c <;> rfl

private theorem run_number_whole :
    numberPattern.regex.automaton.run [5] before cs =
      some ((cs.takeWhile CharSet.digits.holds).length +
        (fractionSpan (cs.dropWhile CharSet.digits.holds)).1.length) := by
  have hread (before : Option Char) : numberPattern.regex.automaton.Fronts [5] before
      ⟨[(.digits, 5), (.single '.', 2)], true⟩ := fun after => rfl
  induction cs generalizing before with
  | nil => rw [Automaton.run_nil_of_fronts (hread before)]; rfl
  | cons c cs ih =>
    rw [Automaton.run_cons_of_fronts (hread before)]
    have hpoint : CharSet.digits.holds '.' = false := rfl
    by_cases hc : c = '.'
    · subst hc
      have hnext : Automaton.next [(.digits, 5), (.single '.', 2)] '.' = [2] := by simp [hpoint]
      simp only [hnext, run_number_fraction, fractionSpan, List.takeWhile_cons,
        List.dropWhile_cons, hpoint]
      cases hs : someOf? CharSet.digits.holds cs <;> simp [hs]
    · cases hd : CharSet.digits.holds c
      · simp [hd, hc, fractionSpan]
      · simp [hd, hc, ih, Nat.add_right_comm]

private theorem run_number_unsigned {states : List Nat}
    (h : numberPattern.regex.automaton.Fronts states before ⟨[(.digits, 5)], false⟩) :
    numberPattern.regex.automaton.run states before cs =
      (unsignedSpan? cs).map (·.1.length) := by
  rw [Automaton.run_read h cs]
  cases cs with
  | nil => rfl
  | cons c cs =>
    simp only [run_number_whole, unsignedSpan?, someOf?_cons]
    cases CharSet.digits.holds c
    · rfl
    · simp [Nat.add_right_comm]

end

theorem spans_number : (Pattern.regex numberPattern).Spans numberSpan? := by
  refine spans_of_run (fun c after => rfl) (fun cs => ?_) append_of_numberSpan?
  have hread : numberPattern.regex.automaton.Fronts [9] none
      ⟨[(.single '-', 6), (.digits, 5)], false⟩ := fun after => rfl
  have hunsigned (before : Option Char) :
      numberPattern.regex.automaton.Fronts [6] before ⟨[(.digits, 5)], false⟩ := fun after => rfl
  have hminus : CharSet.digits.holds '-' = false := rfl
  cases cs with
  | nil => exact Automaton.run_nil_of_fronts hread
  | cons c cs =>
    refine (Automaton.run_cons_of_fronts hread c cs).trans ?_
    by_cases hc : c = '-'
    · subst hc
      have hnext : Automaton.next [(.single '-', 6), (.digits, 5)] '-' = [6] := by simp [hminus]
      simp only [hnext, run_number_unsigned _ _ (hunsigned _), numberSpan?]
      cases unsignedSpan? cs <;> simp
    · cases hd : CharSet.digits.holds c
      · simp [numberSpan?, hc, unsignedSpan?, someOf?_cons, hd]
      · simp [numberSpan?, hc, unsignedSpan?, someOf?_cons, hd, run_number_whole,
          Nat.add_right_comm]

section
variable {a : Automaton} {space stop : Nat}
  (hspace : ∀ before, a.Fronts [space] before ⟨[(.spaces, space), (.single '(', stop)], false⟩)
  (hstop : ∀ before, a.Fronts [stop] before ⟨[], true⟩)
include hspace hstop

/-- A run through space to an opening parenthesis. -/
private theorem run_open {states : List Nat} {before : Option Char}
    (h : a.Fronts states before ⟨[(.spaces, space), (.single '(', stop)], false⟩)
    (cs : List Char) : a.run states before cs = (openSpan? cs).map (·.1.length) := by
  have hend (before : Option Char) (cs : List Char) : a.run [stop] before cs = some 0 := by
    cases cs with
    | nil => exact Automaton.run_nil_of_fronts (hstop before)
    | cons c cs => simp [Automaton.run_cons_of_fronts (hstop before)]
  have hparen : Text.isSpace '(' = false := rfl
  induction cs generalizing states before with
  | nil => exact Automaton.run_nil_of_fronts h
  | cons c cs ih =>
    rw [Automaton.run_cons_of_fronts h]
    by_cases hc : c = '('
    · subst hc
      have hnext : Automaton.next [(.spaces, space), (.single '(', stop)] '(' = [stop] := by
        simp [CharSet.holds_spaces, hparen]
      simp [hnext, hend, openSpan?, hparen]
    · cases hs : Text.isSpace c
      · simp [CharSet.holds_spaces, hs, hc, openSpan?]
      · have hnext : Automaton.next [(.spaces, space), (.single '(', stop)] c = [space] := by
          simp [CharSet.holds_spaces, hs, hc]
        simp only [hnext, ih (hspace _), openSpan?, List.dropWhile_cons, List.takeWhile_cons, hs]
        rcases cs.dropWhile Text.isSpace with _ | ⟨d, rest⟩
        · rfl
        · by_cases hd : d = '(' <;> simp [hd]

/-- A run through the rest of a name and then as before. No character of a name is space or a
parenthesis, so there is one way to go on at most. -/
private theorem run_name_open {name : Nat}
    (hname : ∀ before, a.Fronts [name] before
      ⟨[(namePart, name), (.spaces, space), (.single '(', stop)], false⟩)
    (before : Option Char) (cs : List Char) :
    a.run [name] before cs = (openSpan? (cs.dropWhile Word.has)).map
      fun span => (cs.takeWhile Word.has).length + span.1.length := by
  induction cs generalizing before with
  | nil => exact Automaton.run_nil_of_fronts (hname before)
  | cons c cs ih =>
    rw [Automaton.run_cons_of_fronts (hname before)]
    cases hc : Word.has c
    · have hnext : Automaton.next [(namePart, name), (.spaces, space), (.single '(', stop)] c =
          Automaton.next [(.spaces, space), (.single '(', stop)] c := by
        rw [Automaton.next_cons, holds_namePart, hc]
        rfl
      have hrun := run_open hspace hstop (hspace before) (c :: cs)
      rw [Automaton.run_cons_of_fronts (hspace before)] at hrun
      simp only [hnext]
      refine hrun.trans ?_
      simp [hc]
    · have hparen : c ≠ '(' := by
        rintro rfl
        cases hc
      have hnext : Automaton.next [(namePart, name), (.spaces, space), (.single '(', stop)] c =
          [name] := by
        simp [holds_namePart, hc, CharSet.holds_spaces, not_isSpace_of_has hc, hparen]
      simp only [hnext, ih, List.takeWhile_cons, List.dropWhile_cons, hc, if_true]
      cases openSpan? (cs.dropWhile Word.has) <;> simp [Nat.add_right_comm]

end

theorem spans_open : (Pattern.regex openPattern).Spans openSpan? :=
  spans_of_run (fun _ _ => rfl) (fun cs => run_open (fun _ _ => rfl) (fun _ _ => rfl)
    (fun _ => rfl) cs) append_of_openSpan?

theorem spans_call : (Pattern.regex callPattern).Spans callSpan? := by
  refine spans_of_run (fun c after => rfl) (fun cs => ?_) append_of_callSpan?
  have hread : callPattern.regex.automaton.Fronts [7] none ⟨[(nameStart, 4)], false⟩ :=
    fun after => rfl
  have hname (before : Option Char) : callPattern.regex.automaton.Fronts [4] before
      ⟨[(namePart, 4), (.spaces, 2), (.single '(', 0)], false⟩ := fun after => rfl
  have hspace (before : Option Char) : callPattern.regex.automaton.Fronts [2] before
      ⟨[(.spaces, 2), (.single '(', 0)], false⟩ := fun after => rfl
  have hstop (before : Option Char) : callPattern.regex.automaton.Fronts [0] before ⟨[], true⟩ :=
    fun after => rfl
  refine (Automaton.run_read hread cs).trans ?_
  cases cs with
  | nil => rfl
  | cons c cs =>
    simp only [run_name_open hspace hstop hname, callSpan?, nameSpan?, holds_nameStart]
    cases startsName c
    · rfl
    · rcases hopen : openSpan? (cs.dropWhile Word.has) with _ | ⟨l, r⟩
      · simp [hopen]
      · simp [hopen]

theorem spans_plain : (Pattern.regex plainPattern).Spans plainSpan? := by
  have hplain : (CharSet.ofList ['"', '\\']).complement.holds = isPlain := funext holds_plain
  have hspans := spans_some (b := plainPattern) rfl
  rwa [hplain] at hspans

theorem spans_braced : (Pattern.regex bracedPattern).Spans bracedSpan? := by
  refine spans_of_run (fun c after => rfl) (fun cs => ?_) ?_
  · have hread : bracedPattern.regex.automaton.Fronts [3] none
        ⟨[((CharSet.ofList ['\x7d', '"']).complement, 1)], true⟩ := fun after => rfl
    have hloop (before : Option Char) : bracedPattern.regex.automaton.Fronts [1] before
        ⟨[((CharSet.ofList ['\x7d', '"']).complement, 1)], true⟩ := fun after => rfl
    have hbraced : (CharSet.ofList ['\x7d', '"']).complement.holds = isBraced :=
      funext holds_braced
    refine (Automaton.run_read hread cs).trans ?_
    cases cs with
    | nil => rfl
    | cons c cs =>
      simp only [Automaton.run_loop hloop, bracedSpan?, hbraced, holds_braced, List.takeWhile_cons]
      cases isBraced c <;> rfl
  · intro cs l r h
    cases h
    exact List.takeWhile_append_dropWhile

end Descent.Script
