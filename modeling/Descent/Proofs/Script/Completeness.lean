import Descent.Proofs.Script.Soundness

/-!
# What is in the language is read

* `FollowsExpr`: what may stand behind an expression;
* `EndsNumber`: what may stand behind a number.

Every reader of scripts is complete for the trees that are not higher than its levels.
-/

namespace Descent.Script

open Reader (many commaTurn seriesTurn)

variable {cs l r w : List Char} {c : Char}

/-! ## What comes next -/

/-- The end, a comma, a closing parenthesis or a semicolon, perhaps after space. -/
def FollowsExpr (r : List Char) : Prop :=
  ∀ c ∈ (r.dropWhile Text.isSpace).head?, c = ',' ∨ c = ')' ∨ c = ';'

theorem FollowsExpr.nil : FollowsExpr [] := nofun

theorem FollowsExpr.cons (hw : Blank w) (hc : c = ',' ∨ c = ')' ∨ c = ';') :
    FollowsExpr (w ++ c :: r) := by
  have hspace : Text.isSpace c = false := by
    rcases hc with rfl | rfl | rfl <;> rfl
  unfold FollowsExpr
  rw [(Stops.cons hspace).dropWhile_append hw]
  rintro _ ⟨⟩
  exact hc

theorem FollowsExpr.head (h : FollowsExpr r) (hc : c ∈ r.head?) :
    Text.isSpace c ∨ c = ',' ∨ c = ')' ∨ c = ';' := by
  cases r with
  | nil => cases hc
  | cons d r =>
    cases hc
    cases hs : Text.isSpace c
    · exact .inr (h c (by simp [hs]))
    · exact .inl rfl

theorem Blank.stops (hw : Blank w) (hc : Word.has c = false) : Stops Word.has (w ++ c :: r) :=
  stops_has_append hw fun _ => .cons hc

theorem FollowsExpr.not_has (h : FollowsExpr r) : Stops Word.has r := by
  intro c hc
  rcases h.head hc with hs | rfl | rfl | rfl
  · exact not_has_of_isSpace hs
  all_goals rfl

/-- A number ends where its digits end and no point follows. -/
structure EndsNumber (r : List Char) : Prop where
  digits : Stops CharSet.digits.holds r
  point : Stops (· == '.') r

theorem FollowsExpr.endsNumber (h : FollowsExpr r) : EndsNumber r where
  digits := by
    intro c hc
    rcases h.head hc with hs | rfl | rfl | rfl
    · exact holds_digits_of_isSpace hs
    all_goals rfl
  point := by
    intro c hc
    rcases h.head hc with hs | rfl | rfl | rfl
    · rw [beq_eq_false_iff_ne]
      rintro rfl
      cases hs
    all_goals rfl

/-! ## Lexemes -/

theorem nameSpan?_append (h : IsName l) (hr : Stops Word.has r) :
    nameSpan? (l ++ r) = some (l, r) := by
  obtain ⟨hc, hcs⟩ := h
  rw [List.cons_append, nameSpan?, if_pos hc, hr.takeWhile_append hcs, hr.dropWhile_append hcs]

theorem complete_name :
    readName.Complete (fun l s => IsName l ∧ s = String.ofList l) (Stops Word.has) := by
  rintro l _ r ⟨hl, rfl⟩ hr
  simp [readName, nameSpan?_append hl hr]

theorem IsDigits.someOf?_append (h : IsDigits l) (hr : Stops CharSet.digits.holds r) :
    someOf? CharSet.digits.holds (l ++ r) = some (l, r) :=
  Descent.someOf?_append h.ne_nil (fun c hc => holds_digits_of_isDigit (h.isDigit c hc)) hr

theorem fractionSpan_of_stops (h : Stops (· == '.') r) : fractionSpan r = ([], r) := by
  unfold fractionSpan
  split
  next => cases h '.' rfl
  next => rfl

theorem unsignedSpan?_append (h : IsUnsigned l) (hr : EndsNumber r) :
    unsignedSpan? (l ++ r) = some (l, r) := by
  unfold unsignedSpan?
  cases h with
  | whole h => simp [h.someOf?_append hr.digits, fractionSpan_of_stops hr.point]
  | @fraction l f h hf =>
    rw [List.append_assoc, List.cons_append, h.someOf?_append (.cons rfl)]
    simp [fractionSpan, hf.someOf?_append hr.digits]

theorem IsUnsigned.head (h : IsUnsigned l) : ∃ c cs, l = c :: cs ∧ c.isDigit := by
  rcases h with ⟨hne, hdigit⟩ | ⟨⟨hne, hdigit⟩, -⟩
  all_goals
    obtain ⟨c, cs, rfl⟩ := List.exists_cons_of_ne_nil hne
    exact ⟨c, _, rfl, hdigit c (List.mem_cons_self ..)⟩

theorem numberSpan?_append (h : IsNumeral l) (hr : EndsNumber r) :
    numberSpan? (l ++ r) = some (l, r) := by
  cases h with
  | plus h =>
    have hspan := unsignedSpan?_append h hr
    obtain ⟨c, cs, rfl, hc⟩ := h.head
    unfold numberSpan?
    split
    next heq =>
      cases heq
      cases hc
    next => exact hspan
  | minus h => simp [numberSpan?, unsignedSpan?_append h hr]

theorem complete_number :
    readNumber.Complete (fun l value => IsNumeral l ∧ numberValue? l = some value) EndsNumber := by
  rintro l value r ⟨hl, hvalue⟩ hr
  simp [readNumber, numberSpan?_append hl hr, hvalue]

/-! ## Text literals -/

theorem many_piece_plain {pieces : List (List Char)} (hc : isPlain c)
    (h : many readPiece cs = some (pieces, r)) :
    ∃ pieces', many readPiece (c :: cs) = some (pieces', r) ∧
      pieces'.flatten = c :: pieces.flatten := by
  have hnext : readPiece (c :: cs) =
      some (.next (c :: cs.takeWhile isPlain), cs.dropWhile isPlain) := by
    simp [readPiece, plainSpan?, someOf?_cons, hc]
  rw [Reader.many_of_next hnext (readPiece_next hnext)]
  by_cases hrun : cs.takeWhile isPlain = []
  · have hdrop := List.takeWhile_append_dropWhile (p := isPlain) (l := cs)
    rw [hrun, List.nil_append] at hdrop
    rw [hrun, hdrop, h]
    exact ⟨_, rfl, rfl⟩
  · have hrest : readPiece cs = some (.next (cs.takeWhile isPlain), cs.dropWhile isPlain) := by
      simp [readPiece, plainSpan?, someOf?, hrun]
    rw [Reader.many_of_next hrest (readPiece_next hrest)] at h
    obtain ⟨⟨rest, _⟩, hmany, heq⟩ := Option.map_eq_some_iff.1 h
    cases heq
    rw [hmany]
    exact ⟨_, rfl, rfl⟩

/-- No character that an escape can begin with is plain or a quote. -/
theorem readPiece_escaped (h : readEscaped ('\\' :: cs) = some (c, r)) :
    readPiece ('\\' :: cs) = some (.next [c], r) := by
  have hplain : plainSpan? ('\\' :: cs) = none := rfl
  have hquote : literalSpan? "\"" ('\\' :: cs) = none := rfl
  simp only [readPiece, hplain, hquote, h, Option.map_some]

theorem many_piece_escaped {pieces : List (List Char)}
    (h : readEscaped ('\\' :: cs) = some (c, l)) (hmany : many readPiece l = some (pieces, r)) :
    many readPiece ('\\' :: cs) = some ([c] :: pieces, r) := by
  have hnext := readPiece_escaped h
  rw [Reader.many_of_next hnext (readPiece_next hnext), hmany]
  rfl

theorem readEscaped_escape {e : String} (h : (e, c) ∈ escapes) :
    ∃ cs, e.toList = '\\' :: cs ∧ ∀ l, readEscaped ('\\' :: (cs ++ l)) = some (c, l) := by
  simp only [escapes, List.mem_cons, Prod.mk.injEq, List.not_mem_nil, or_false] at h
  rcases h with ⟨rfl, rfl⟩ | ⟨rfl, rfl⟩ | ⟨rfl, rfl⟩ | ⟨rfl, rfl⟩
  all_goals exact ⟨_, rfl, fun _ => rfl⟩

theorem isBraced_of_codePoint? {hex : List Char}
    (h : Cursor.codePoint? (String.ofList hex) = some c) : ∀ d ∈ hex, isBraced d := by
  obtain ⟨n, hn, -⟩ := Option.bind_eq_some_iff.1 h
  rw [String.toList_ofList] at hn
  unfold Text.hexadecimal? at hn
  split at hn
  · cases hn
  · intro d hd
    have hdigit := Text.isSome_of_readDigits? hn hd
    by_contra hbraced
    simp only [isBraced, bne, Bool.and_eq_true, Bool.not_eq_true', beq_eq_false_iff_ne, ne_eq,
      not_and_or, not_not] at hbraced
    rcases hbraced with rfl | rfl <;> cases hdigit

theorem readEscaped_unicode {hex : List Char}
    (h : Cursor.codePoint? (String.ofList hex) = some c) :
    readEscaped ('\\' :: 'u' :: '\x7b' :: (hex ++ '\x7d' :: l)) = some (c, l) := by
  have hopen : literalSpan? "\\u\x7b" ('\\' :: 'u' :: '\x7b' :: (hex ++ '\x7d' :: l)) =
      some (['\\', 'u', '\x7b'], hex ++ '\x7d' :: l) := rfl
  have hclose : literalSpan? "\x7d" ('\x7d' :: l) = some (['\x7d'], l) := rfl
  have hstop : Stops isBraced ('\x7d' :: l) := .cons rfl
  have hbraced := isBraced_of_codePoint? h
  simp only [readEscaped, hopen, readCodePoint, bracedSpan?, hstop.takeWhile_append hbraced,
    hstop.dropWhile_append hbraced, Option.bind_eq_bind, Option.bind_some, hclose, h,
    Option.pure_def]

theorem many_of_quoted {s : List Char} (h : Quoted l s) (r : List Char) :
    ∃ pieces, many readPiece (l ++ r) = some (pieces, r) ∧ pieces.flatten = s := by
  induction h with
  | close => exact ⟨[], Reader.many_of_stop rfl, rfl⟩
  | plain hc _ ih =>
    obtain ⟨pieces, hmany, rfl⟩ := ih
    exact many_piece_plain hc hmany
  | escape he _ ih =>
    obtain ⟨pieces, hmany, rfl⟩ := ih
    obtain ⟨cs, hcs, hread⟩ := readEscaped_escape he
    rw [List.append_assoc, hcs]
    exact ⟨_, many_piece_escaped (hread _) hmany, rfl⟩
  | unicode hcode _ ih =>
    obtain ⟨pieces, hmany, rfl⟩ := ih
    refine ⟨[_] :: pieces, ?_, rfl⟩
    simp only [List.cons_append, List.append_assoc]
    exact many_piece_escaped (readEscaped_unicode hcode) hmany

theorem complete_text : readText.Complete IsText fun _ => True := by
  rintro _ s r ⟨hl⟩ -
  obtain ⟨pieces, hmany, rfl⟩ := many_of_quoted hl r
  unfold readText
  rw [List.cons_append, show literalSpan? "\"" ('"' :: _) = some (['"'], _) from rfl]
  simp [hmany]

/-! ## Expressions -/

/-- How an expression begins. -/
def startsExpr (c : Char) : Prop :=
  c = '"' ∨ c = '-' ∨ c.isDigit ∨ startsName c

theorem IsName.head (h : IsName l) : ∃ c cs, l = c :: cs ∧ startsName c := by
  obtain ⟨hc, -⟩ := h
  exact ⟨_, _, rfl, hc⟩

theorem IsNumeral.head (h : IsNumeral l) : ∃ c cs, l = c :: cs ∧ (c = '-' ∨ c.isDigit) := by
  cases h with
  | plus h =>
    obtain ⟨c, cs, rfl, hc⟩ := h.head
    exact ⟨c, cs, rfl, .inr hc⟩
  | minus h => exact ⟨_, _, rfl, .inl rfl⟩

theorem IsExpr.head {x : Expr} (h : IsExpr l x) : ∃ c cs, l = c :: cs ∧ startsExpr c := by
  cases h with
  | text h =>
    cases h
    exact ⟨_, _, rfl, .inl rfl⟩
  | number h =>
    obtain ⟨c, cs, rfl, hc⟩ := h.head
    exact ⟨c, cs, rfl, .inr (hc.imp_right .inl)⟩
  | name h =>
    obtain ⟨c, cs, rfl, hc⟩ := h.head
    exact ⟨c, cs, rfl, .inr (.inr (.inr hc))⟩
  | call h =>
    obtain ⟨hf⟩ := h
    obtain ⟨c, cs, rfl, hc⟩ := hf.head
    exact ⟨c, _, rfl, .inr (.inr (.inr hc))⟩

theorem not_isSpace_of_startsExpr (h : startsExpr c) : Text.isSpace c = false := by
  rcases h with rfl | rfl | h | h
  · rfl
  · rfl
  · exact not_isSpace_of_has (by simp [Word.has, Char.isAlphanum, h])
  · exact not_isSpace_of_has (has_of_startsName h)

/-- No digit of any script begins a name. -/
theorem not_digits_of_startsName (h : startsName c) : CharSet.digits.holds c = false := by
  simp [startsName, isAlpha_iff, ← Char.toNat_inj] at h
  rw [Bool.eq_false_iff]
  simp [CharSet.digits, CharSet.holds, CharSet.within, Text.decimalDigits]
  omega

theorem numberSpan?_of_startsName (h : startsName c) : numberSpan? (c :: cs) = none := by
  have hspan : unsignedSpan? (c :: cs) = none := by
    simp [unsignedSpan?, someOf?_cons, not_digits_of_startsName h]
  unfold numberSpan?
  split
  next heq =>
    cases heq
    cases h
  next => exact hspan

theorem literalSpan?_cons_ne {s : String} {d : Char} (hs : s.toList = [d]) (h : c ≠ d) :
    literalSpan? s (c :: cs) = none := by
  rw [literalSpan?_singleton hs]
  exact if_neg h

/-- A token of one character, after space. -/
theorem literalSpan?_spaced {s : String} (hs : s.toList = [c]) (hc : Text.isSpace c = false)
    (hw : Blank w) (r : List Char) :
    literalSpan? s ((w ++ c :: r).dropWhile Text.isSpace) = some ([c], r) := by
  rw [(Stops.cons hc).dropWhile_append hw, literalSpan?_singleton hs]
  exact if_pos rfl

/-! ### Calls -/

/-- A reader takes the expressions that are not higher than some levels. -/
def TakesExprs (levels : Nat) (read : Reader Expr) : Prop :=
  read.Complete (fun l x => IsExpr l x ∧ x.height ≤ levels) FollowsExpr

theorem IsExpr.stops {x : Expr} (h : IsExpr l x) (r : List Char) : Stops Text.isSpace (l ++ r) := by
  obtain ⟨c, cs, rfl, hc⟩ := h.head
  rintro _ ⟨⟩
  exact not_isSpace_of_startsExpr hc

section
variable {levels : Nat} {read : Reader Expr} (hread : TakesExprs levels read)
include hread

theorem commaTurn_last {w' : List Char} {x : Expr} (hw : Blank w) (hx : IsExpr l x)
    (hheight : x.height ≤ levels) (hw' : Blank w') (r : List Char) :
    read.commaTurn (w ++ (l ++ (w' ++ ')' :: r))) = some (.last x, ')' :: r) := by
  have hstop : Stops Text.isSpace (')' :: r) := .cons rfl
  rw [Reader.commaTurn, (hx.stops _).dropWhile_append hw,
    hread ⟨hx, hheight⟩ (.cons hw' (.inr (.inl rfl)))]
  simp only [Option.map_some, hstop.dropWhile_append hw']
  rfl

theorem commaTurn_next {w' : List Char} {x : Expr} (hw : Blank w) (hx : IsExpr l x)
    (hheight : x.height ≤ levels) (hw' : Blank w') (r : List Char) :
    read.commaTurn (w ++ (l ++ (w' ++ ',' :: r))) = some (.next x, r) := by
  have hstop : Stops Text.isSpace (',' :: r) := .cons rfl
  rw [Reader.commaTurn, (hx.stops _).dropWhile_append hw,
    hread ⟨hx, hheight⟩ (.cons hw' (.inl rfl))]
  simp only [Option.map_some, hstop.dropWhile_append hw']
  rfl

/-- The arguments from one on, when each before it was followed by a comma. -/
theorem many_commaTurn (hshrinks : read.Shrinks) {x : Expr} {xs : List Expr} {more : List Char}
    (hw : Blank w) (hx : IsExpr l x) (hmore : IsMore more xs)
    (hheights : Expr.heights (x :: xs) ≤ levels) (r : List Char) :
    many read.commaTurn (w ++ (l ++ (more ++ r))) = some (x :: xs, ')' :: r) := by
  induction xs generalizing w l x more with
  | nil =>
    obtain ⟨hw'⟩ := hmore
    simp only [Expr.heights, Nat.max_zero] at hheights
    rw [List.append_assoc]
    exact Reader.many_of_last (commaTurn_last hread hw hx hheights hw' r)
  | cons y ys ih =>
    cases hmore with
    | @comma _ w'' l' _ more' _ hw' hw'' hy hmore =>
      rw [Expr.heights, Nat.max_le] at hheights
      have hnext := commaTurn_next hread hw hx hheights.1 hw' (w'' ++ (l' ++ (more' ++ r)))
      simp only [List.append_assoc, List.cons_append]
      rw [Reader.many_of_next hnext (hshrinks.commaTurn hnext), ih hw'' hy hmore hheights.2]
      rfl

theorem readArgs_append (hshrinks : read.Shrinks) {args : List Expr} (h : IsArgs l args)
    (hheights : Expr.heights args ≤ levels) (r : List Char) :
    readArgs read ((l ++ r).dropWhile Text.isSpace) = some (args, ')' :: r) := by
  cases h with
  | none hw =>
    rw [List.append_assoc, List.singleton_append, (Stops.cons rfl).dropWhile_append hw]
    rfl
  | some hw hx hmore =>
    simp only [List.append_assoc]
    rw [(hx.stops _).dropWhile_append hw]
    have hmany := many_commaTurn hread hshrinks (w := []) nofun hx hmore hheights r
    obtain ⟨c, cs, rfl, hc⟩ := hx.head
    have hclose : c ≠ ')' := by
      rintro rfl
      rcases hc with hc | hc | hc | hc <;> cases hc
    rw [readArgs, List.cons_append, literalSpan?_cons_ne rfl hclose, if_neg (by simp)]
    exact hmany

theorem readCall_append (hshrinks : read.Shrinks) (hlevels : 1 ≤ levels) {f : String}
    {args : List Expr} (h : IsCall l f args) (hheights : Expr.heights args ≤ levels)
    (r : List Char) : readCall levels read (l ++ r) = some ((f, args), r) := by
  obtain ⟨levels, rfl⟩ := Nat.exists_eq_succ_of_ne_zero (Nat.ne_of_gt hlevels)
  obtain @⟨f, w, tail, _, hf, hw, hargs⟩ := h
  have hname : readName (f ++ (w ++ '(' :: (tail ++ r))) = _ :=
    complete_name ⟨hf, rfl⟩ (hw.stops rfl)
  have hopen := literalSpan?_spaced (s := "(") (c := '(') rfl rfl hw (tail ++ r)
  have hargs := readArgs_append hread hshrinks hargs hheights r
  have hclose : literalSpan? ")" ((')' :: r).dropWhile Text.isSpace) = some ([')'], r) :=
    literalSpan?_spaced rfl rfl (w := []) nofun r
  simp only [List.append_assoc, List.cons_append]
  simp only [readCall, deeper, hname, hopen, hargs, hclose, Option.bind_eq_bind,
    Option.bind_some, Option.pure_def]

end

theorem openSpan?_eq_none (h : FollowsExpr r) : openSpan? r = none := by
  unfold openSpan?
  split
  next rest heq =>
    rcases h '(' (by rw [heq]; rfl) with h | h | h <;> cases h
  next => rfl

theorem openSpan?_isSome (hw : Blank w) (r : List Char) : (openSpan? (w ++ '(' :: r)).isSome := by
  rw [openSpan?, (Stops.cons rfl).dropWhile_append hw]
  rfl

/-- Where a name stands, an expression is that name or a call. -/
theorem readExpr_of_isName (levels : Nat) (h : IsName l) (hr : Stops Word.has r) :
    readExpr (levels + 2) (l ++ r) =
      if (openSpan? r).isSome then
        (readCall levels (readExpr levels) (l ++ r)).map fun (call, rest) =>
          (.call call.1 call.2, rest)
      else some (.name (String.ofList l), r) := by
  have hname := complete_name ⟨h, rfl⟩ hr
  obtain ⟨c, cs, rfl, hc⟩ := h.head
  have hquote : literalSpan? "\"" (c :: (cs ++ r)) = none := by
    refine literalSpan?_cons_ne rfl ?_
    rintro rfl
    cases hc
  rw [List.cons_append] at hname ⊢
  simp only [readExpr, hquote, numberSpan?_of_startsName hc, Option.isSome_none, hname,
    Bool.false_eq_true, if_false, Option.bind_eq_bind, Option.bind_some, Option.pure_def]

theorem takes_expr (levels : Nat) : TakesExprs levels (readExpr levels) := by
  induction levels using Nat.twoStepInduction with
  | zero =>
    rintro l x r ⟨-, hheight⟩
    have := x.two_le_height
    omega
  | one =>
    rintro l x r ⟨-, hheight⟩
    have := x.two_le_height
    omega
  | more levels ih _ =>
    rintro l x r ⟨hx, hheight⟩ hr
    cases hx with
    | text h =>
      have hread := complete_text h (r := r) trivial
      obtain ⟨hq⟩ := h
      simp only [readExpr, List.cons_append] at hread ⊢
      rw [hread]
      rfl
    | number h hvalue =>
      have hread := complete_number ⟨h, hvalue⟩ hr.endsNumber
      have hspan := numberSpan?_append h hr.endsNumber
      have hquote : literalSpan? "\"" (l ++ r) = none := by
        obtain ⟨c, cs, rfl, hc⟩ := h.head
        refine literalSpan?_cons_ne rfl ?_
        rintro rfl
        rcases hc with hc | hc <;> cases hc
      simp only [readExpr, hquote, hspan, hread, Option.isSome_none, Option.isSome_some,
        Bool.false_eq_true, if_false, if_true, Option.map_some]
    | name h =>
      rw [readExpr_of_isName levels h hr.not_has, openSpan?_eq_none hr]
      rfl
    | call h =>
      simp only [Expr.height] at hheight
      have hcall := readCall_append ih (shrinks_expr levels) (by omega) h (by omega) r
      obtain ⟨hf, hw, -⟩ := h
      simp only [List.append_assoc, List.cons_append] at hcall ⊢
      rw [readExpr_of_isName levels hf (hw.stops rfl), openSpan?_isSome hw, hcall]
      rfl

/-! ## Bindings and scripts -/

/-- Only letters are changed by taking the lower case, and the result is one. -/
theorem isAlpha_of_toLower (h : c.toLower.isAlpha) : c.isAlpha := by
  unfold Char.toLower at h
  split at h
  next hupper => exact isAlpha_iff.2 (.inl (by simpa [UInt32.le_iff_toNat_le] using hupper))
  next => exact h

theorem has_of_let {word : List Char} (h : word.map Char.toLower = ['l', 'e', 't']) :
    ∀ c ∈ word, Word.has c := by
  intro c hc
  have hlower : c.toLower ∈ ['l', 'e', 't'] := h ▸ List.mem_map_of_mem hc
  simp only [List.mem_cons, List.not_mem_nil, or_false] at hlower
  apply has_of_isAlpha
  apply isAlpha_of_toLower
  rcases hlower with h | h | h <;> rw [h] <;> rfl

theorem stops_of_let {word : List Char} (h : word.map Char.toLower = ['l', 'e', 't'])
    (r : List Char) : Stops Text.isSpace (word ++ r) :=
  stops_of_has (by rintro rfl; cases h) (has_of_let h) r

theorem Blank.stops_of_ne_nil (hw : Blank w) (hne : w ≠ []) (r : List Char) :
    Stops Word.has (w ++ r) :=
  stops_has_append hw fun hnil => absurd hnil hne

section
variable {word : List Char} (hword : word.map Char.toLower = ['l', 'e', 't']) (hw : Blank w)
  (hne : w ≠ [])
include hword hw hne

theorem startsBinding_append (r : List Char) : startsBinding (word ++ (w ++ r)) := by
  rw [startsBinding, (stops_of_let hword _).dropWhile,
    (hw.stops_of_ne_nil hne r).takeWhile_append (has_of_let hword), hword]
  rfl

theorem readWord_append (hr : Stops Text.isSpace r) :
    readWord (word ++ (w ++ r)) = some ((), r) := by
  rw [readWord, if_pos (startsBinding_append hword hw hne r), pastWord,
    (stops_of_let hword _).dropWhile,
    (hw.stops_of_ne_nil hne r).dropWhile_append (has_of_let hword), hr.dropWhile_append hw]

end

theorem IsName.stops (h : IsName l) (r : List Char) : Stops Text.isSpace (l ++ r) := by
  obtain ⟨c, cs, rfl, hc⟩ := h.head
  exact .cons (not_isSpace_of_has (has_of_startsName hc))

theorem IsBinding.starts {b : Binding} (h : IsBinding l b) (r : List Char) :
    Stops Text.isSpace (l ++ r) ∧ startsBinding (l ++ r) := by
  obtain ⟨hword, hw, hne⟩ := h
  simp only [List.append_assoc]
  exact ⟨stops_of_let hword _, startsBinding_append hword hw hne _⟩

theorem complete_binding (levels : Nat) :
    (readBinding levels).Complete (fun l b => IsBinding l b ∧ b.value.height ≤ levels)
      fun _ => True := by
  rintro l b r ⟨hb, hheight⟩ -
  obtain @⟨word, w, f, w₁, w₂, l, w₃, x, hword, hw, hne, hf, hw₁, hw₂, hx, hw₃⟩ := hb
  have hlevels := x.two_le_height.trans hheight
  have hvalue := takes_expr levels ⟨hx, hheight⟩
    (FollowsExpr.cons (r := r) (c := ';') hw₃ (.inr (.inr rfl)))
  obtain ⟨levels, rfl⟩ := Nat.exists_eq_succ_of_ne_zero (Nat.ne_of_gt (Nat.lt_of_succ_lt hlevels))
  have hread := readWord_append hword hw hne
    (hf.stops (w₁ ++ '=' :: (w₂ ++ (l ++ (w₃ ++ ';' :: r)))))
  have hname : readName (f ++ (w₁ ++ '=' :: (w₂ ++ (l ++ (w₃ ++ ';' :: r))))) = _ :=
    complete_name ⟨hf, rfl⟩ (hw₁.stops rfl)
  have hequals := literalSpan?_spaced (s := "=") (c := '=') rfl rfl hw₁
    (w₂ ++ (l ++ (w₃ ++ ';' :: r)))
  have hend := literalSpan?_spaced (s := ";") (c := ';') rfl rfl hw₃ r
  simp only [List.append_assoc, List.cons_append, List.nil_append]
  simp only [readBinding, deeper, hread, hname, hequals, (hx.stops _).dropWhile_append hw₂, hvalue,
    hend, Option.bind_eq_bind, Option.bind_some, Option.pure_def]

theorem Blank.dropWhile (h : Blank w) : w.dropWhile Text.isSpace = [] := by
  rw [List.dropWhile_eq_nil_iff]
  exact h

theorem seriesTurn_next {levels : Nat} {b : Binding} (hw : Blank w) (hb : IsBinding l b)
    (hheight : b.value.height ≤ levels - 1) (r : List Char) :
    seriesTurn (deeper levels (readBinding (levels - 1))) startsBinding (w ++ (l ++ r)) =
      some (.next b, r) := by
  have := b.value.two_le_height
  obtain ⟨levels, rfl⟩ : ∃ k, levels = k + 1 := ⟨levels - 1, by omega⟩
  obtain ⟨hstop, hstarts⟩ := hb.starts r
  rw [Reader.seriesTurn, hstop.dropWhile_append hw, if_pos hstarts]
  simp only [deeper, complete_binding _ ⟨hb, hheight⟩ (r := r) trivial, Option.map_some]

theorem many_of_isScript {levels : Nat} {bs : List Binding} (h : IsScript l bs)
    (hheights : Expr.heights (bs.map (·.value)) ≤ levels - 1) :
    ∃ w, Blank w ∧
      many (seriesTurn (deeper levels (readBinding (levels - 1))) startsBinding) l =
        some (bs, w) := by
  induction h with
  | nil hw =>
    refine ⟨_, hw, Reader.many_of_stop ?_⟩
    rw [Reader.seriesTurn, hw.dropWhile]
    rfl
  | @cons w l b r bs hw hb _ ih =>
    simp only [List.map_cons, Expr.heights, Nat.max_le] at hheights
    obtain ⟨w', hw', hmany⟩ := ih hheights.2
    have hnext := seriesTurn_next hw hb hheights.1 r
    refine ⟨w', hw', ?_⟩
    rw [List.append_assoc,
      Reader.many_of_next hnext (Reader.Shrinks.seriesTurn (shrinks_binding _) hnext), hmany]
    rfl

theorem complete_script {levels : Nat} {bs : List Binding} (h : IsScript l bs)
    (hneed : need bs ≤ levels + 1) : readScript levels l = some (bs, []) := by
  have hheights : Expr.heights (bs.map (·.value)) ≤ levels - 1 := by
    cases bs with
    | nil => exact Nat.zero_le _
    | cons b bs =>
      rw [need, List.isEmpty_cons, if_neg Bool.false_ne_true] at hneed
      omega
  obtain ⟨w, hw, hmany⟩ := many_of_isScript h hheights
  simp only [readScript, hmany, Option.bind_eq_bind, Option.bind_some, hw.dropWhile,
    List.isEmpty_nil, if_true, Option.pure_def]

end Descent.Script
