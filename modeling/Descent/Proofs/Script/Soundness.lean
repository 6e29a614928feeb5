import Descent.Proofs.Decimal.Literal
import Descent.Proofs.Script.Language
import Descent.Proofs.Script.Reader
import Descent.Proofs.Session.RoundTrip
import Descent.Proofs.Session.Words

/-!
# What is read is in the language

Every reader of scripts is sound: whatever it takes is a text of the language of its production.
What it reads is not higher than the levels it was given. The reader of an expression is so by
recursion over the levels.
-/

namespace Descent.Script

open Reader (many commaTurn seriesTurn)

variable {cs l r : List Char}

/-! ## Lexemes -/

/-- The space in front of a text. -/
theorem exists_blank (cs : List Char) : ∃ w, Blank w ∧ w ++ cs.dropWhile Text.isSpace = cs :=
  ⟨_, fun _ h => List.mem_takeWhile_imp h, List.takeWhile_append_dropWhile⟩

theorem Blank.append {w w' : List Char} (h : Blank w) (h' : Blank w') : Blank (w ++ w') :=
  fun c hc => (List.mem_append.1 hc).elim (h c) (h' c)

theorem isName_of_nameSpan? (h : nameSpan? cs = some (l, r)) : IsName l := by
  cases cs with
  | nil => cases h
  | cons c cs =>
    simp only [nameSpan?] at h
    split at h
    next hc =>
      cases h
      exact .cons hc fun _ h => List.mem_takeWhile_imp h
    next => cases h

theorem sound_name : readName.Sound fun l s => IsName l ∧ s = String.ofList l := by
  intro cs s rest h
  obtain ⟨⟨l, r⟩, hspan, heq⟩ := Option.bind_eq_some_iff.1 h
  cases heq
  exact ⟨l, append_of_nameSpan? hspan, isName_of_nameSpan? hspan, rfl⟩

theorem mem_of_readInteger? {n : Int} (h : readInteger? l = some n) :
    ∀ c ∈ l, c.isDigit ∨ c = '-' := by
  have hvalue := (Option.filter_eq_some_iff.1 h).1
  split at hvalue
  all_goals
    obtain ⟨i, hi, -⟩ := Option.map_eq_some_iff.1 hvalue
    obtain ⟨m, hm, -⟩ := Option.bind_eq_some_iff.1 hi
  next =>
    rintro c (_ | ⟨_, hc⟩)
    · exact .inr rfl
    · exact .inl (Text.isDigit_of_decimal? hm hc)
  next => exact fun c hc => .inl (Text.isDigit_of_decimal? hm hc)

theorem mem_of_numberValue? {value : Json} (h : numberValue? l = some value) :
    ∀ c ∈ l, Decimal.LiteralChar c := by
  rcases Option.or_eq_some_iff.1 h with h | ⟨-, h⟩
  · obtain ⟨n, hn, -⟩ := Option.map_eq_some_iff.1 h
    exact fun c hc => (mem_of_readInteger? hn c hc).imp_right .inl
  · obtain ⟨x, hx, -⟩ := Option.map_eq_some_iff.1 h
    obtain ⟨d, hd, -⟩ := Option.bind_eq_some_iff.1 hx
    exact Decimal.mem_of_read? hd

/-- The digits of a number that has a value are those of ASCII. -/
theorem isDigits_of_someOf? (h : someOf? CharSet.digits.holds cs = some (l, r))
    (hl : ∀ c ∈ l, Decimal.LiteralChar c) : IsDigits l := by
  obtain ⟨hne, hdigit⟩ := mem_of_someOf? h
  refine ⟨hne, fun c hc => ?_⟩
  have hd := hdigit c hc
  rcases hl c hc with hc | rfl | rfl | rfl | rfl | rfl
  · exact hc
  all_goals exact absurd hd (by decide)

theorem isUnsigned_of_unsignedSpan? (h : unsignedSpan? cs = some (l, r))
    (hl : ∀ c ∈ l, Decimal.LiteralChar c) : IsUnsigned l := by
  obtain ⟨⟨whole, tail⟩, hwhole, heq⟩ := Option.map_eq_some_iff.1 h
  cases heq
  have hdigits := isDigits_of_someOf? hwhole fun c hc => hl c (List.mem_append_left _ hc)
  unfold fractionSpan at hl ⊢
  split at hl
  next tail =>
    rcases hfraction : someOf? CharSet.digits.holds tail with _ | ⟨f, rest⟩
    · simpa using IsUnsigned.whole hdigits
    · simp only [hfraction] at hl ⊢
      refine .fraction hdigits (isDigits_of_someOf? hfraction fun c hc => hl c ?_)
      exact List.mem_append_right _ (List.mem_cons_of_mem _ hc)
  next => simpa using IsUnsigned.whole hdigits

theorem isNumeral_of_numberSpan? {value : Json} (h : numberSpan? cs = some (l, r))
    (hv : numberValue? l = some value) : IsNumeral l := by
  have hl := mem_of_numberValue? hv
  unfold numberSpan? at h
  split at h
  · obtain ⟨⟨l, r⟩, hspan, heq⟩ := Option.map_eq_some_iff.1 h
    cases heq
    exact .minus (isUnsigned_of_unsignedSpan? hspan fun c hc => hl c (List.mem_cons_of_mem _ hc))
  · exact .plus (isUnsigned_of_unsignedSpan? h hl)

theorem sound_number : readNumber.Sound fun l value =>
    IsNumeral l ∧ numberValue? l = some value := by
  intro cs value rest h
  obtain ⟨⟨l, r⟩, hspan, h⟩ := Option.bind_eq_some_iff.1 h
  obtain ⟨v, hv, heq⟩ := Option.bind_eq_some_iff.1 h
  cases heq
  exact ⟨l, append_of_numberSpan? hspan, isNumeral_of_numberSpan? hspan hv, hv⟩

/-! ## Text literals -/

theorem sound_oneOf (escapes : List (String × Char)) :
    (readOneOf escapes).Sound fun l c => ∃ e, (e, c) ∈ escapes ∧ e.toList = l := by
  induction escapes with
  | nil => nofun
  | cons entry escapes ih =>
    obtain ⟨e, d⟩ := entry
    intro cs c rest h
    simp only [readOneOf] at h
    split at h
    next hspan =>
      cases h
      exact ⟨_, append_of_literalSpan? hspan, e, List.mem_cons_self .., rfl⟩
    next =>
      obtain ⟨l, hl, e', he, rfl⟩ := ih h
      exact ⟨_, hl, e', List.mem_cons_of_mem _ he, rfl⟩

theorem sound_codePoint : readCodePoint.Sound fun l c =>
    ∃ hex, Cursor.codePoint? (String.ofList hex) = some c ∧ l = hex ++ ['\x7d'] := by
  intro cs c rest h
  unfold readCodePoint at h
  simp only [bracedSpan?, Option.bind_eq_bind, Option.bind_some] at h
  obtain ⟨⟨_, r⟩, hclose, h⟩ := Option.bind_eq_some_iff.1 h
  obtain ⟨d, hd, heq⟩ := Option.bind_eq_some_iff.1 h
  cases heq
  refine ⟨_, ?_, _, hd, rfl⟩
  have hbehind := append_of_literalSpan? hclose
  rw [List.append_assoc]
  exact (congrArg (cs.takeWhile isBraced ++ ·) hbehind).trans List.takeWhile_append_dropWhile

theorem sound_escaped : readEscaped.Sound fun l c =>
    l ≠ [] ∧ ∀ {tail s}, Quoted tail s → Quoted (l ++ tail) (c :: s) := by
  intro cs c rest h
  unfold readEscaped at h
  split at h
  next hspan =>
    obtain ⟨_, rfl, hex, hcode, rfl⟩ := sound_codePoint h
    refine ⟨'\\' :: 'u' :: '\x7b' :: hex ++ ['\x7d'], ?_, by simp, fun hq => ?_⟩
    · rw [← append_of_literalSpan? hspan]
      simp
    · rw [List.append_assoc]
      exact .unicode hcode hq
  next =>
    obtain ⟨l, hl, e, he, rfl⟩ := sound_oneOf escapes h
    refine ⟨_, hl, ?_, .escape he⟩
    have hall : ∀ entry ∈ escapes, entry.1.toList ≠ [] := by decide
    exact hall _ he

theorem quoted_append {p tail s : List Char} (hp : ∀ c ∈ p, isPlain c) (h : Quoted tail s) :
    Quoted (p ++ tail) (p ++ s) := by
  induction p with
  | nil => exact h
  | cons c p ih =>
    exact .plain (hp c (List.mem_cons_self ..)) (ih fun d hd => hp d (List.mem_cons_of_mem _ hd))

/-- An item of a text literal, or its closing quote. -/
theorem sound_piece : readPiece.Sound fun l turn =>
    l ≠ [] ∧ match turn with
      | .stop => l = ['"']
      | .next piece => ∀ {tail s}, Quoted tail s → Quoted (l ++ tail) (piece ++ s)
      | .last _ => False := by
  intro cs turn rest h
  unfold readPiece at h
  split at h
  next l r hspan =>
    cases h
    obtain ⟨hne, hplain⟩ := mem_of_someOf? hspan
    exact ⟨l, append_of_someOf? hspan, hne, fun hq => quoted_append hplain hq⟩
  next =>
    split at h
    next hquote =>
      cases h
      exact ⟨_, append_of_literalSpan? hquote, by simp, rfl⟩
    next =>
      obtain ⟨⟨c, r⟩, hescaped, heq⟩ := Option.map_eq_some_iff.1 h
      cases heq
      obtain ⟨l, hl, hne, hq⟩ := sound_escaped hescaped
      exact ⟨l, hl, hne, hq⟩

theorem readPiece_next {cs piece rest : List Char} (h : readPiece cs = some (.next piece, rest)) :
    rest.length < cs.length :=
  sound_piece.shrinks (fun h => h.1) h

theorem quoted_of_many {pieces : List (List Char)} (h : many readPiece cs = some (pieces, r)) :
    ∃ l, l ++ r = cs ∧ Quoted l pieces.flatten := by
  refine Reader.many_induct (P := fun cs pieces r => ∃ l, l ++ r = cs ∧ Quoted l pieces.flatten)
    ?_ ?_ ?_ h
  · intro cs r h
    obtain ⟨_, hl, -, rfl⟩ := sound_piece h
    exact ⟨_, hl, .close⟩
  · intro cs piece r h
    obtain ⟨_, -, -, hfalse⟩ := sound_piece h
    exact hfalse.elim
  · rintro cs piece tail pieces r h ⟨l', rfl, hl'⟩
    obtain ⟨l, hl, -, hq⟩ := sound_piece h
    exact ⟨l ++ l', by rw [List.append_assoc, hl], hq hl'⟩

theorem sound_text : readText.Sound IsText := by
  intro cs s rest h
  obtain ⟨⟨_, r⟩, hquote, h⟩ := Option.bind_eq_some_iff.1 h
  obtain ⟨⟨pieces, r'⟩, hmany, heq⟩ := Option.bind_eq_some_iff.1 h
  cases heq
  obtain ⟨l, hl, hq⟩ := quoted_of_many hmany
  refine ⟨'"' :: l, ?_, .mk hq⟩
  rw [← append_of_literalSpan? hquote, ← hl]
  rfl

/-! ## Expressions -/

/-- What follows the space after an opening parenthesis if there are arguments. -/
private def ListedArgs (l : List Char) (xs : List Expr) : Prop :=
  ∃ w e x more xs', Blank w ∧ IsExpr e x ∧ IsMore more xs' ∧ xs = x :: xs' ∧ w ++ e ++ more = l

section
variable {levels : Nat} {read : Reader Expr}
  (hread : read.Sound fun l x => IsExpr l x ∧ x.height ≤ levels)
include hread

private theorem sound_commaTurn {turn : Turn Expr} (h : read.commaTurn cs = some (turn, r)) :
    ∃ w l x w', Blank w ∧ IsExpr l x ∧ x.height ≤ levels ∧ Blank w' ∧
      ((turn = .next x ∧ w ++ l ++ w' ++ ',' :: r = cs) ∨
        (turn = .last x ∧ w ++ l ++ w' ++ r = cs)) := by
  obtain ⟨x, tail, hx, hturn⟩ := Reader.commaTurn_cases h
  obtain ⟨l, hl, hexpr, hheight⟩ := hread hx
  obtain ⟨w, hw, hcs⟩ := exists_blank cs
  obtain ⟨w', hw', htail⟩ := exists_blank tail
  refine ⟨w, l, x, w', hw, hexpr, hheight, hw', ?_⟩
  rcases hturn with ⟨rfl, hcomma⟩ | ⟨rfl, rfl⟩
  · refine .inl ⟨rfl, ?_⟩
    rw [← hcs, ← hl, ← htail, ← hcomma]
    simp
  · refine .inr ⟨rfl, ?_⟩
    rw [← hcs, ← hl]
    simp [htail]

private theorem sound_commas {xs : List Expr} (h : many read.commaTurn cs = some (xs, r)) :
    Expr.heights xs ≤ levels ∧ ∀ w r', Blank w → w ++ ')' :: r' = r →
      ∃ l, l ++ r' = cs ∧ ListedArgs l xs := by
  refine Reader.many_induct (P := fun cs xs r => Expr.heights xs ≤ levels ∧
    ∀ w r', Blank w → w ++ ')' :: r' = r → ∃ l, l ++ r' = cs ∧ ListedArgs l xs) ?_ ?_ ?_ h
  · intro cs r h
    obtain ⟨_, _, _, _, -, -, -, -, ⟨⟨⟩, -⟩ | ⟨⟨⟩, -⟩⟩ := sound_commaTurn hread h
  · intro cs x r h
    obtain ⟨w, l, _, w', hw, hl, hheight, hw', ⟨⟨⟩, -⟩ | ⟨⟨⟩, hcs⟩⟩ := sound_commaTurn hread h
    refine ⟨by simpa [Expr.heights] using hheight, ?_⟩
    rintro w₂ r' hw₂ rfl
    exact ⟨_, by rw [← hcs]; simp, w, l, x, _, [], hw, hl, .close (hw'.append hw₂), rfl, rfl⟩
  · rintro cs x tail xs r h ⟨hheights, hargs⟩
    obtain ⟨w, l, _, w', hw, hl, hheight, hw', ⟨⟨⟩, hcs⟩ | ⟨⟨⟩, -⟩⟩ := sound_commaTurn hread h
    refine ⟨by simp [Expr.heights, hheight, hheights], ?_⟩
    intro w₂ r' hw₂ hr
    obtain ⟨_, htail, w₃, e, y, more, ys, hw₃, he, hmore, rfl, rfl⟩ := hargs w₂ r' hw₂ hr
    exact ⟨_, by rw [← hcs, ← htail]; simp, w, l, x, _, y :: ys, hw, hl,
      .comma hw' hw₃ he hmore, rfl, rfl⟩

theorem sound_call : (readCall levels read).Sound fun l call =>
    IsCall l call.1 call.2 ∧ 1 ≤ levels ∧ Expr.heights call.2 ≤ levels := by
  intro cs call rest h
  obtain ⟨⟨name, cs₁⟩, hname, h⟩ := Option.bind_eq_some_iff.1 h
  obtain ⟨⟨_, cs₂⟩, hopen, h⟩ := Option.bind_eq_some_iff.1 h
  obtain ⟨⟨args, cs₃⟩, hargs, h⟩ := Option.bind_eq_some_iff.1 h
  obtain ⟨⟨_, r⟩, hclose, heq⟩ := Option.bind_eq_some_iff.1 h
  cases heq
  obtain ⟨f, rfl, ⟨hf, rfl⟩, hlevels⟩ := sound_name.deeper levels hname
  obtain ⟨w₁, hw₁, hcs₁⟩ := exists_blank cs₁
  obtain ⟨w₂, hw₂, hcs₂⟩ := exists_blank cs₂
  obtain ⟨w₃, hw₃, hcs₃⟩ := exists_blank cs₃
  rw [← append_of_literalSpan? hopen] at hcs₁
  rw [← append_of_literalSpan? hclose] at hcs₃
  suffices hbehind : ∃ l, l ++ rest = cs₂ ∧ IsArgs l args ∧ Expr.heights args ≤ levels by
    obtain ⟨l, rfl, hl, hheights⟩ := hbehind
    exact ⟨_, by rw [← hcs₁]; simp, .mk hf hw₁ hl, hlevels, hheights⟩
  unfold readArgs at hargs
  split at hargs
  next =>
    cases hargs
    refine ⟨w₂ ++ w₃ ++ [')'], ?_, .none (hw₂.append hw₃), Nat.zero_le _⟩
    rw [← hcs₂, ← hcs₃]
    simp
  next =>
    obtain ⟨hheights, hlisted⟩ := sound_commas hread hargs
    obtain ⟨_, hl, w, e, x, more, xs, hw, he, hmore, rfl, rfl⟩ := hlisted w₃ rest hw₃ hcs₃
    refine ⟨w₂ ++ w ++ e ++ more, ?_, .some (hw₂.append hw) he hmore, hheights⟩
    rw [← hcs₂, ← hl]
    simp

end

theorem IsName.ne_nil (h : IsName l) : l ≠ [] := by
  cases h
  nofun

theorem IsNumeral.ne_nil (h : IsNumeral l) : l ≠ [] := by
  rcases h with ⟨hdigits | ⟨-, -⟩⟩ | -
  · exact hdigits.ne_nil
  all_goals simp

theorem IsExpr.ne_nil {x : Expr} (h : IsExpr l x) : l ≠ [] := by
  cases h with
  | text h =>
    cases h
    nofun
  | number h => exact h.ne_nil
  | name h => exact h.ne_nil
  | call h =>
    cases h
    simp

theorem sound_expr (levels : Nat) :
    (readExpr levels).Sound fun l x => IsExpr l x ∧ x.height ≤ levels := by
  induction levels using Nat.twoStepInduction with
  | zero => nofun
  | one => nofun
  | more levels ih _ =>
    intro cs x rest h
    simp only [readExpr] at h
    split at h
    · obtain ⟨⟨s, r⟩, hs, heq⟩ := Option.map_eq_some_iff.1 h
      cases heq
      obtain ⟨l, hl, htext⟩ := sound_text hs
      exact ⟨l, hl, .text htext, Nat.le_add_left ..⟩
    split at h
    · obtain ⟨⟨value, r⟩, hvalue, heq⟩ := Option.map_eq_some_iff.1 h
      cases heq
      obtain ⟨l, hl, hnumeral, hv⟩ := sound_number hvalue
      exact ⟨l, hl, .number hnumeral hv, Nat.le_add_left ..⟩
    obtain ⟨⟨name, r⟩, hname, h⟩ := Option.bind_eq_some_iff.1 h
    simp only at h
    split at h
    · obtain ⟨⟨⟨f, args⟩, r'⟩, hcall, heq⟩ := Option.map_eq_some_iff.1 h
      cases heq
      obtain ⟨l, hl, hcall, hlevels, hheights⟩ := sound_call ih hcall
      refine ⟨l, hl, .call hcall, ?_⟩
      simp only at hheights
      simp only [Expr.height]
      omega
    · cases h
      obtain ⟨l, hl, hf, rfl⟩ := sound_name hname
      exact ⟨l, hl, .name hf, Nat.le_add_left ..⟩

theorem shrinks_expr (levels : Nat) : (readExpr levels).Shrinks :=
  (sound_expr levels).shrinks fun h => h.1.ne_nil

/-! ## Bindings and scripts -/

/-- The word in front of a name ends where space begins. -/
private theorem exists_word {f : List Char} (h : readWord cs = some ((), f ++ r)) (hf : IsName f) :
    ∃ w₁ word w₂, Blank w₁ ∧ word.map Char.toLower = ['l', 'e', 't'] ∧ Blank w₂ ∧ w₂ ≠ [] ∧
      w₁ ++ word ++ w₂ ++ f ++ r = cs := by
  obtain ⟨w₁, hw₁, hcs⟩ := exists_blank cs
  obtain ⟨w₂, hw₂, hpast⟩ := exists_blank ((cs.dropWhile Text.isSpace).dropWhile Word.has)
  unfold readWord at h
  split at h
  next hstarts =>
    have hbehind : pastWord cs = f ++ r := congrArg (·.2) (Option.some.inj h)
    rw [show List.dropWhile Text.isSpace _ = f ++ r from hbehind] at hpast
    refine ⟨w₁, (cs.dropWhile Text.isSpace).takeWhile Word.has, w₂, hw₁, eq_of_beq hstarts, hw₂,
      ?_, ?_⟩
    · rintro rfl
      obtain ⟨hc, -⟩ := hf
      have hhead := List.head?_dropWhile_not Word.has (cs.dropWhile Text.isSpace)
      rw [← hpast] at hhead
      exact Bool.false_ne_true (hhead.symm.trans (has_of_startsName hc))
    · rw [List.append_assoc, List.append_assoc, hpast, List.append_assoc,
        List.takeWhile_append_dropWhile, hcs]
  next => cases h

theorem sound_binding (levels : Nat) : (readBinding levels).Sound fun l b =>
    (∃ w l', Blank w ∧ IsBinding l' b ∧ w ++ l' = l) ∧ b.value.height ≤ levels := by
  intro cs b rest h
  obtain ⟨⟨_, cs₁⟩, hword, h⟩ := Option.bind_eq_some_iff.1 h
  obtain ⟨⟨name, cs₂⟩, hname, h⟩ := Option.bind_eq_some_iff.1 h
  obtain ⟨⟨_, cs₃⟩, hequals, h⟩ := Option.bind_eq_some_iff.1 h
  obtain ⟨⟨value, cs₄⟩, hvalue, h⟩ := Option.bind_eq_some_iff.1 h
  obtain ⟨⟨_, r⟩, hend, heq⟩ := Option.bind_eq_some_iff.1 h
  cases heq
  obtain ⟨f, rfl, ⟨hf, rfl⟩, -⟩ := sound_name.deeper levels hname
  obtain ⟨w₁, word, w, hw₁, hlet, hw, hne, rfl⟩ := exists_word hword hf
  obtain ⟨w₂, hw₂, hcs₂⟩ := exists_blank cs₂
  obtain ⟨w₃, hw₃, hcs₃⟩ := exists_blank cs₃
  obtain ⟨w₄, hw₄, hcs₄⟩ := exists_blank cs₄
  obtain ⟨l, hl, hexpr, hheight⟩ := sound_expr levels hvalue
  rw [← append_of_literalSpan? hequals, ← hcs₃, ← hl, ← hcs₄, ← append_of_literalSpan? hend] at hcs₂
  refine ⟨w₁ ++ _, ?_, ⟨w₁, _, hw₁, .mk hlet hw hne hf hw₂ hw₃ hexpr hw₄, rfl⟩, hheight⟩
  rw [← hcs₂]
  simp

theorem IsBinding.ne_nil {b : Binding} (h : IsBinding l b) : l ≠ [] := by
  cases h
  simp

theorem shrinks_binding (levels : Nat) :
    (deeper levels (readBinding (levels - 1))).Shrinks := by
  refine ((sound_binding _).deeper levels).shrinks ?_
  rintro _ b ⟨⟨⟨w, l, -, hb, rfl⟩, -⟩, -⟩
  simp [hb.ne_nil]

theorem sound_bindings {levels : Nat} {bs : List Binding}
    (h : many (seriesTurn (deeper levels (readBinding (levels - 1))) startsBinding) cs =
      some (bs, r)) (hr : Blank r) :
    IsScript cs bs ∧ Expr.heights (bs.map (·.value)) ≤ levels - 1 := by
  refine Reader.many_induct (P := fun cs bs r => Blank r →
    IsScript cs bs ∧ Expr.heights (bs.map (·.value)) ≤ levels - 1) ?_ ?_ ?_ h hr
  · intro cs r h hr
    obtain ⟨-, rfl⟩ | ⟨_, ⟨⟩, -⟩ := Reader.seriesTurn_cases h
    exact ⟨.nil hr, Nat.zero_le _⟩
  · intro cs b r h
    obtain ⟨⟨⟩, -⟩ | ⟨_, ⟨⟩, -⟩ := Reader.seriesTurn_cases h
  · intro cs b tail bs r h ih hr
    obtain ⟨hbs, hheights⟩ := ih hr
    obtain ⟨⟨⟩, -⟩ | ⟨b, ⟨⟩, hb⟩ := Reader.seriesTurn_cases h
    obtain ⟨_, hl, ⟨⟨w', l, hw', hb, rfl⟩, hheight⟩, -⟩ := (sound_binding _).deeper levels hb
    obtain ⟨w, hw, hcs⟩ := exists_blank cs
    refine ⟨?_, by simp [Expr.heights, hheight, hheights]⟩
    rw [← hcs, ← hl]
    simpa using IsScript.cons (hw.append hw') hb hbs

theorem Expr.two_le_height (x : Expr) : 2 ≤ x.height := by
  cases x <;> simp [height]

theorem sound_script {levels : Nat} {bs : List Binding}
    (h : readScript levels cs = some (bs, r)) :
    r = [] ∧ IsScript cs bs ∧ need bs ≤ levels + 1 := by
  obtain ⟨⟨bs, tail⟩, hmany, h⟩ := Option.bind_eq_some_iff.1 h
  simp only at h
  split at h
  next hend =>
    cases h
    obtain ⟨w, hw, htail⟩ := exists_blank tail
    rw [List.isEmpty_iff.1 hend, List.append_nil] at htail
    obtain ⟨hscript, hheights⟩ := sound_bindings hmany (htail ▸ hw)
    refine ⟨rfl, hscript, ?_⟩
    unfold need
    cases bs with
    | nil => simp
    | cons b bs =>
      have := b.value.two_le_height
      simp only [List.map_cons, Expr.heights, List.isEmpty_cons] at hheights ⊢
      simp only [Bool.false_eq_true, if_false]
      omega
  next => cases h

end Descent.Script
