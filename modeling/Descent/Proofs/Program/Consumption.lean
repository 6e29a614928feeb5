import Descent.Proofs.Script.Lexemes
import Descent.Proofs.Session.Forward

/-!
# Productions that consume text

Every production of phrases and of scripts consumes text when it succeeds, but for the two that may
be empty. An expression goes back over its name; what it then parses is a call, which consumes its
parenthesis.
-/

namespace Descent

open Grammar

/-- A run of a class has a character. -/
private theorem consumes_some {b : BoundRegex} {set : CharSet}
    (hb : b.regex = .seq (.anchor .start) (.plus true (.char set))) :
    (Pattern.regex b).Consumes :=
  (spans_some hb).consumes fun hspan => (mem_of_someOf? hspan).1

/-! ## Scripts -/

namespace Script

theorem consumes_namePattern : (Pattern.regex namePattern).Consumes := by
  refine spans_name.consumes fun {cs l r} hspan => ?_
  unfold nameSpan? at hspan
  split at hspan
  · cases hspan
  · split at hspan <;> cases hspan
    exact List.cons_ne_nil _ _

theorem ne_nil_of_unsignedSpan? {cs l r : List Char} (h : unsignedSpan? cs = some (l, r)) :
    l ≠ [] := by
  obtain ⟨⟨whole, rest⟩, hwhole, heq⟩ := Option.map_eq_some_iff.1 h
  cases heq
  exact List.append_ne_nil_of_left_ne_nil (mem_of_someOf? hwhole).1 _

theorem consumes_numberPattern : (Pattern.regex numberPattern).Consumes := by
  refine spans_number.consumes fun {cs l r} hspan => ?_
  unfold numberSpan? at hspan
  split at hspan
  · obtain ⟨⟨l', r'⟩, -, heq⟩ := Option.map_eq_some_iff.1 hspan
    cases heq
    exact List.cons_ne_nil _ _
  · exact ne_nil_of_unsignedSpan? hspan

theorem consumes_identifier : grammar.Consumes "Identifier" :=
  consumes_of_body rfl fun _ _ _ =>
    .consume_bind (Cursor.consumes_take consumes_namePattern _) fun _ _ h => .done h

theorem consumes_number : grammar.Consumes "Number" := by
  refine consumes_of_body rfl fun levels options s => ?_
  refine .consume_bind (Cursor.consumes_take consumes_numberPattern _) fun literal c h => ?_
  cases numberValue? literal.toList with
  | none => exact .refuse _
  | some value => exact .done h

theorem consumes_text : grammar.Consumes "Text" := by
  refine consumes_of_body rfl fun levels options s => ?_
  refine .consume_bind (Cursor.consumes_take (consumes_literal (by decide)) _) fun _ c h => ?_
  refine .state_bind (.bind (.mono (.onward locals (local_readItems _ "")) fun value s' h' => ?_))
  exact .done (Nat.lt_of_lt_of_le h h')

theorem consumes_call : grammar.Consumes "Call" := by
  refine consumes_of_body rfl fun levels options s => ?_
  refine .local_bind locals rfl fun name s₁ _ h₁ => .forward_bind rfl fun _ c₂ h₂ => ?_
  refine .consume_bind (Cursor.consumes_take (consumes_literal (by decide)) _) fun _ c₃ h₃ => ?_
  refine .forward_bind rfl fun _ c₄ h₄ => .sees_bind fun closed => ?_
  have hopened : s.cursor.offset < c₄.offset :=
    Nat.lt_of_le_of_lt (Nat.le_trans h₁ h₂) (Nat.lt_of_lt_of_le h₃ h₄)
  cases closed with
  | true =>
    refine .forward_bind rfl fun _ c₅ h₅ => .forward_bind rfl fun _ c₆ h₆ => .done ?_
    exact Nat.lt_of_lt_of_le hopened (Nat.le_trans h₅ h₆)
  | false =>
    refine .local_bind locals rfl fun args s₅ _ h₅ => ?_
    refine .forward_bind rfl fun _ c₆ h₆ => .forward_bind rfl fun _ c₇ h₇ => .done ?_
    exact Nat.lt_of_lt_of_le hopened (Nat.le_trans h₅ (Nat.le_trans h₆ h₇))

theorem consumes_expression : grammar.Consumes "Expression" := by
  refine consumes_of_body rfl fun levels options s => ?_
  refine .seesProduction_bind fun text => ?_
  cases text with
  | true => exact .request_bind fun id s' h => .done (consumes_text h)
  | false =>
  refine .seesProduction_bind fun number => ?_
  cases number with
  | true => exact .request_bind fun id s' h => .done (consumes_number h)
  | false =>
  refine .seesProduction_bind fun identifier => ?_
  cases identifier with
  | false => exact .refuse _
  | true =>
  refine .request_bind fun name s₁ hname => .sees_bind fun opened => ?_
  cases opened with
  | false => exact .done (consumes_identifier hname)
  | true =>
    refine .rewind_bind fun node c hnode hstart => .request_bind fun id s₂ hcall => .done ?_
    -- The call begins where the name did, which is where the expression began.
    obtain ⟨node', hnode', -, hstart'⟩ := parse_start hname
    cases hnode.symm.trans hnode'
    have hback : c.offset = s.cursor.offset := Option.some.inj (hstart.symm.trans hstart')
    exact hback ▸ consumes_call hcall

theorem consumes_letBinding : grammar.Consumes "Let" := by
  refine consumes_of_body rfl fun levels options s => ?_
  refine .consume_bind (Cursor.consumes_takeThisWord (by decide)) fun _ c₁ h₁ => ?_
  refine .local_bind locals rfl fun name s₂ _ h₂ => .forward_bind rfl fun _ c₃ h₃ => ?_
  refine .forward_bind rfl fun _ c₄ h₄ => .forward_bind rfl fun _ c₅ h₅ => ?_
  refine .local_bind locals rfl fun value s₆ _ h₆ => .forward_bind rfl fun _ c₇ h₇ => ?_
  refine .forward_bind rfl fun _ c₈ h₈ => .done ?_
  have hname : s.cursor.offset < c₃.offset := Nat.lt_of_lt_of_le h₁ (Nat.le_trans h₂ h₃)
  have hvalue : c₃.offset ≤ s₆.cursor.offset := Nat.le_trans h₄ (Nat.le_trans h₅ h₆)
  exact Nat.lt_of_lt_of_le hname (Nat.le_trans hvalue (Nat.le_trans h₇ h₈))

/-- All but a script consume text. -/
theorem consumes {kind : String} (hkind : kind ∈ grammar.kinds) (hscript : kind ≠ "Script") :
    grammar.Consumes kind := by
  rcases mem_kinds.1 hkind with rfl | rfl | rfl | rfl | rfl | rfl | rfl
  · exact consumes_identifier
  · exact consumes_number
  · exact consumes_text
  · exact consumes_call
  · exact consumes_expression
  · exact consumes_letBinding
  · exact absurd rfl hscript

end Script

/-! ## Phrases -/

namespace Phrase

theorem consumes_anyWord : grammar.Consumes "AnyWord" :=
  consumes_of_body rfl fun _ _ _ =>
    .consume_bind (Cursor.consumes_takeThisWord nofun) fun _ _ h => .done h

theorem consumes_number : grammar.Consumes "Number" :=
  consumes_of_body rfl fun _ _ _ =>
    .consume_bind (Cursor.consumes_take (consumes_some rfl) _) fun _ _ h => .done h

theorem consumes_letters : grammar.Consumes "Letters" :=
  consumes_of_body rfl fun _ _ _ =>
    .consume_bind (Cursor.consumes_take (consumes_some rfl) _) fun _ _ h => .done h

theorem consumes_greeting : grammar.Consumes "Greeting" :=
  consumes_of_body rfl fun _ _ _ =>
    .consume_bind (Cursor.consumes_takeThisWord (by decide)) fun _ _ h₁ =>
      .local_bind locals rfl fun _ _ _ h₂ => .done (Nat.lt_of_lt_of_le h₁ h₂)

theorem consumes_sentence : grammar.Consumes "Sentence" :=
  consumes_of_body rfl fun _ _ _ =>
    .local_bind locals rfl fun _ _ _ h₁ =>
      .consume_bind (Cursor.consumes_take (consumes_literal (by decide)) _) fun _ _ h₂ =>
        .done (Nat.lt_of_le_of_lt h₁ h₂)

theorem consumes_nested : grammar.Consumes "Nested" := by
  refine consumes_of_body rfl fun levels options s => ?_
  refine .take?_bind (consumes_literal (by decide)) (fun _ c₁ h₁ => ?_) ?_
  · refine .local_bind locals rfl fun inner s₂ _ h₂ => .forward_bind rfl fun _ c₃ h₃ => .done ?_
    exact Nat.lt_of_lt_of_le h₁ (Nat.le_trans h₂ h₃)
  · exact .consume_bind (Cursor.consumes_takeThisWord nofun) fun _ _ h => .done h

theorem consumes_garbled : grammar.Consumes "Garbled" :=
  consumes_of_body rfl fun _ _ _ =>
    .consume_bind (Cursor.consumes_takeThisWord nofun) fun _ _ h => .done h

/-- All but what is empty consume text. -/
theorem consumes {kind : String} (hkind : kind ∈ grammar.kinds) (hempty : kind ≠ "Empty") :
    grammar.Consumes kind := by
  rcases mem_kinds.1 hkind with rfl | rfl | rfl | rfl | rfl | rfl | rfl | rfl
  · exact consumes_anyWord
  · exact consumes_number
  · exact consumes_letters
  · exact consumes_greeting
  · exact consumes_sentence
  · exact consumes_nested
  · exact absurd rfl hempty
  · exact consumes_garbled

end Phrase
end Descent
