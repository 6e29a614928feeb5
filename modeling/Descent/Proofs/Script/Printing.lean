import Descent.Proofs.Cursor.CodePoint
import Descent.Proofs.Decimal.ReadBack
import Descent.Proofs.Script.Soundness

/-!
# What is written is in the language

The source text of a syntax tree is a text of that tree, whichever way it is written, provided that
the tree has some text at all: then its names are names, and its numbers and texts have literals.
-/

namespace Descent.Script

variable {l r : List Char} {options : Options}

/-! ## Numbers -/

theorem toList_natCast (n : Nat) : (toString (n : Int)).toList = Nat.toDigits 10 n := by
  change (toString n).toList = _
  rw [Nat.toString_eq_ofList_toDigits, String.toList_ofList]

theorem toList_negSucc (n : Nat) :
    (toString (Int.negSucc n)).toList = '-' :: Nat.toDigits 10 (n + 1) := by
  change ("-" ++ toString (n + 1)).toList = _
  simp only [String.toList_append, Nat.toString_eq_ofList_toDigits, String.toList_ofList]
  rfl

theorem isUnsigned_toDigits (n : Nat) : IsUnsigned (Nat.toDigits 10 n) :=
  .whole ⟨Nat.toDigits_ne_nil,
    fun _ hc => Text.isDigit_of_decimal? (Text.decimal?_toDigits n) hc⟩

/-- No minus stands in front of digits. -/
theorem readInteger?_toDigits (n : Nat) :
    readInteger? (Nat.toDigits 10 n) =
      (some (n : Int)).filter fun n => -2 ^ 63 ≤ n ∧ n < 2 ^ 63 := by
  have hdecimal := Text.decimal?_toDigits n
  unfold readInteger?
  split
  next heq =>
    have hminus := Text.isDigit_of_decimal? hdecimal (heq ▸ List.mem_cons_self ..)
    cases hminus
  next =>
    rw [hdecimal]
    rfl

/-- The literal of an integer that fits in 64 bits. -/
theorem numeral_int {n : Int} (h : -2 ^ 63 ≤ n ∧ n < 2 ^ 63) :
    IsNumeral (toString n).toList ∧ readInteger? (toString n).toList = some n := by
  cases n with
  | ofNat n =>
    change IsNumeral (toString (n : Int)).toList ∧ readInteger? (toString (n : Int)).toList = _
    rw [toList_natCast, readInteger?_toDigits]
    exact ⟨.plus (isUnsigned_toDigits n), Option.filter_eq_some_iff.2 ⟨rfl, decide_eq_true h⟩⟩
  | negSucc n =>
    rw [toList_negSucc]
    refine ⟨.minus (isUnsigned_toDigits _), Option.filter_eq_some_iff.2 ⟨?_, decide_eq_true h⟩⟩
    simp only [Text.decimal?_toDigits]
    rfl

/-- The literal of a binary64 number. -/
theorem numeral_float (x : Binary64) :
    IsNumeral x.literalText.toList ∧ numberValue? x.literalText.toList = some (.float x) := by
  obtain ⟨d, whole, fraction, hparts, htext, -⟩ := x.exists_literalText
  constructor
  · have hunsigned : IsUnsigned (whole ++ '.' :: fraction) :=
      .fraction ⟨hparts.whole_ne_nil, hparts.whole_isDigit⟩
        ⟨hparts.fraction_ne_nil, hparts.fraction_isDigit⟩
    rw [htext, Decimal.sign_toList]
    split
    · exact .minus hunsigned
    · exact .plus hunsigned
  · have hinteger : readInteger? x.literalText.toList = none := by
      cases hread : readInteger? x.literalText.toList with
      | none => rfl
      | some n =>
        have hpoint := mem_of_readInteger? hread '.' (by rw [htext]; simp)
        rcases hpoint with h | h <;> cases h
    rw [numberValue?, hinteger, x.read?_literalText]
    rfl

theorem numeral_numberText {value : Json} (h : numberValue? l = some value) :
    IsNumeral (numberText value).toList ∧
      numberValue? (numberText value).toList = some value := by
  rcases Option.or_eq_some_iff.1 h with h | ⟨-, h⟩
  · obtain ⟨n, hn, rfl⟩ := Option.map_eq_some_iff.1 h
    obtain ⟨hnumeral, hread⟩ :=
      numeral_int (of_decide_eq_true (Option.filter_eq_some_iff.1 hn).2)
    refine ⟨hnumeral, ?_⟩
    rw [numberValue?, numberText, hread]
    rfl
  · obtain ⟨x, -, rfl⟩ := Option.map_eq_some_iff.1 h
    exact numeral_float x

/-! ## Text literals -/

theorem quoted_encodeChar (ascii : Bool) (c : Char) {s : List Char} (h : Quoted l s) :
    Quoted ((encodeChar ascii c).toList ++ l) (c :: s) := by
  unfold encodeChar
  split
  · exact .escape (by decide) h
  · exact .escape (by decide) h
  · exact .escape (by decide) h
  · exact .escape (by decide) h
  next hquote hbackslash _ _ =>
  split
  · have hcode : Cursor.codePoint? (String.ofList (Text.hex c.toNat).toList) = some c := by
      rw [String.ofList_toList, Cursor.codePoint?_hex]
    simp only [String.toList_append, List.append_assoc]
    exact .unicode hcode h
  · have hplain : isPlain c := by
      simpa [isPlain] using And.intro hquote hbackslash
    rw [Char.toString, String.toList_singleton]
    exact .plain hplain h

theorem quoted_join (ascii : Bool) (cs : List Char) :
    Quoted (cs.flatMap (fun c => (encodeChar ascii c).toList) ++ ['"']) cs := by
  induction cs with
  | nil => exact .close
  | cons c cs ih =>
    rw [List.flatMap_cons, List.append_assoc]
    exact quoted_encodeChar ascii c ih

theorem isText_encode (ascii : Bool) (s : String) : IsText (encode ascii s).toList s := by
  have h := IsText.mk (quoted_join ascii s.toList)
  rw [String.ofList_toList] at h
  rw [encode, String.toList_append, String.toList_append, String.toList_join, List.flatMap_map]
  exact h

/-! ## Expressions -/

theorem toList_callSource (f : String) (args : List String) :
    (callSource f args).toList =
      f.toList ++ [] ++ '(' :: ((", ".toList.intercalate (args.map String.toList)) ++ [')']) := by
  simp only [callSource, String.toList_append, String.toList_intercalate, List.append_assoc]
  rfl

/-- What is written behind an argument of a call. -/
def moreSource (xs : List Expr) (options : Options) : List Char :=
  xs.flatMap (fun x => ", ".toList ++ (x.source options).toList) ++ [')']

theorem moreSource_cons (x : Expr) (xs : List Expr) (options : Options) :
    moreSource (x :: xs) options =
      [] ++ ',' :: [' '] ++ (x.source options).toList ++ moreSource xs options := by
  rw [moreSource, List.flatMap_cons, List.append_assoc]
  rfl

theorem intercalate_sources (x : Expr) (xs : List Expr) (options : Options) :
    ", ".toList.intercalate ((Expr.sources (x :: xs) options).map String.toList) ++ [')'] =
      (x.source options).toList ++ moreSource xs options := by
  induction xs generalizing x with
  | nil =>
    simp only [Expr.sources, List.map_cons, List.map_nil, List.intercalate_singleton]
    rfl
  | cons y ys ih =>
    have htail := ih y
    simp only [Expr.sources, List.map_cons] at htail ⊢
    rw [List.intercalate_cons_cons, List.append_assoc, htail, moreSource_cons, List.append_assoc]
    rfl

theorem blank_nil : Blank [] := nofun

theorem blank_space : Blank [' '] := by
  rintro _ (_ | ⟨_, ⟨⟩⟩)
  rfl

variable (options)

mutual

theorem IsExpr.printed {l x} : IsExpr l x → IsExpr (x.source options).toList x
  | .text _ => .text (isText_encode _ _)
  | .number _ hvalue => .number (numeral_numberText hvalue).1 (numeral_numberText hvalue).2
  | .name h => by
    rw [Expr.source, String.toList_ofList]
    exact .name h
  | .call h => .call h.printed

theorem IsCall.printed {l f args} : IsCall l f args →
    IsCall (callSource f (Expr.sources args options)).toList f args
  | .mk hf _ hargs => by
    rw [toList_callSource, String.toList_ofList]
    exact .mk hf blank_nil hargs.printed

theorem IsArgs.printed {l args} : IsArgs l args →
    IsArgs (", ".toList.intercalate ((Expr.sources args options).map String.toList) ++ [')']) args
  | .none _ => .none blank_nil
  | .some _ hx hmore => by
    rw [intercalate_sources]
    exact .some blank_nil hx.printed hmore.printed

theorem IsMore.printed {l xs} : IsMore l xs → IsMore (moreSource xs options) xs
  | .close _ => .close blank_nil
  | .comma _ _ hx hmore => by
    rw [moreSource_cons]
    exact .comma blank_nil blank_space hx.printed hmore.printed

end

/-! ## Bindings and scripts -/

theorem IsBinding.printed {b : Binding} (h : IsBinding l b) :
    IsBinding (b.source options).toList b := by
  obtain @⟨_, _, f, _, _, _, _, x, -, -, -, hf, -, -, hx, -⟩ := h
  have hprinted : IsBinding (['l', 'e', 't'] ++ [' '] ++ f ++ [' '] ++ '=' :: [' '] ++
      (x.source options).toList ++ [] ++ [';']) ⟨String.ofList f, x⟩ :=
    .mk rfl blank_space nofun hf blank_space blank_space (hx.printed options) blank_nil
  have htext : (Binding.source ⟨String.ofList f, x⟩ options).toList =
      ['l', 'e', 't'] ++ [' '] ++ f ++ [' '] ++ '=' :: [' '] ++ (x.source options).toList ++ [] ++
        [';'] := by
    simp only [Binding.source, String.toList_append, String.toList_ofList, List.append_assoc]
    rfl
  rw [htext]
  exact hprinted

theorem IsScript.blank_append {w : List Char} {bs : List Binding} (hw : Blank w)
    (h : IsScript l bs) : IsScript (w ++ l) bs := by
  cases h with
  | nil hw' => exact .nil (hw.append hw')
  | cons hw' hb hbs =>
    rw [← List.append_assoc, ← List.append_assoc]
    exact .cons (hw.append hw') hb hbs

theorem IsScript.printed {bs : List Binding} (h : IsScript l bs) :
    IsScript (scriptSource bs options).toList bs := by
  induction h with
  | nil => exact .nil blank_nil
  | @cons _ _ b _ bs _ hb _ ih =>
    have hb := hb.printed options
    cases bs with
    | nil =>
      have hone := IsScript.cons blank_nil hb (.nil blank_nil)
      rwa [List.append_nil] at hone
    | cons b' bs =>
      have hline : Blank ['\n'] := by
        rintro _ (_ | ⟨_, ⟨⟩⟩)
        rfl
      have hboth := IsScript.cons blank_nil hb (ih.blank_append hline)
      rw [scriptSource, List.map_cons, List.map_cons, String.intercalate_cons_cons,
        String.toList_append, String.toList_append, List.append_assoc]
      exact hboth

end Descent.Script
