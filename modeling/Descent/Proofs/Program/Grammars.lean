import Descent.Phrase
import Descent.Proofs.Program.Local
import Descent.Script.Binding

/-!
# The grammars are local

Every production of phrases and of scripts is local: none asks where it is, and the nodes that it
returns are those that it has parsed itself. The kinds of the nodes of phrases are listed by
`Phrase.mem_kinds`, and those of scripts by `Script.mem_kinds`.
-/

namespace Descent

open Program

/-- A field that holds a list holds it whole. -/
private theorem list_sublist (name : String) (ids : List NodeId) :
    (Fields.ofList [(name, .list ids)]).children.Sublist ids := by
  change (ids ++ []).Sublist ids
  rw [List.append_nil]

/-! ## Phrases -/

namespace Phrase

theorem local_anyWord : anyWord.Local :=
  .of_seesWord (fun _ _ => .act_bind rfl fun _ => .done ⟨rfl, List.nil_sublist _⟩)
    fun _ _ _ => rfl

theorem local_number : number.Local :=
  .of_sees (fun _ _ => .act_bind rfl fun _ => .done ⟨rfl, List.nil_sublist _⟩)
    (.regex digitsPattern) fun _ _ _ => rfl

theorem local_letters : letters.Local :=
  .of_sees (fun _ _ => .act_bind rfl fun _ => .done ⟨rfl, List.nil_sublist _⟩)
    (.regex lettersPattern) fun _ _ _ => rfl

theorem local_greeting : greeting.Local :=
  .of_seesWord (fun _ _ => .act_bind rfl fun _ => .parse_bind fun _ => .done ⟨rfl, .refl _⟩)
    fun _ _ _ => rfl

theorem local_sentence : sentence.Local := by
  refine .of_seesWord (fun d options => ?_) fun _ _ _ => rfl
  refine .series_bind fun words => .act_bind rfl fun _ => .done ⟨rfl, ?_⟩
  exact list_sublist "words" words

theorem local_nested : nested.Local where
  starts_eq h := by
    simp only [nested, Cursor.sees_congr h, Cursor.seesWord_congr h]
  starts_error {sees s options e} h := by
    refine .inl ⟨.literal "(", ?_⟩
    simp only [nested] at h
    cases hs : s.cursor.sees (.literal "(") with
    | error e' =>
      rw [hs] at h
      exact h
    | ok found =>
      rw [hs] at h
      cases found <;> cases h
  body d options := by
    refine .act_bind rfl fun opened => ?_
    cases opened with
    | none => exact .act_bind rfl fun word => .done ⟨rfl, List.nil_sublist _⟩
    | some _ => exact .parse_bind fun inner => .act_bind rfl fun _ => .done ⟨rfl, .refl _⟩

theorem local_nothing : nothing.Local where
  starts_eq _ := rfl
  starts_error := nofun
  body _ _ := .done ⟨rfl, .refl _⟩

theorem local_garbled : garbled.Local :=
  .of_seesWord (fun _ _ => .act_bind rfl fun _ => .done ⟨rfl, List.nil_sublist _⟩)
    fun _ _ _ => rfl

theorem locals : ∀ p ∈ grammar.productions, p.Local := by
  intro p hp
  simp only [grammar, List.mem_cons, List.not_mem_nil, or_false] at hp
  rcases hp with rfl | rfl | rfl | rfl | rfl | rfl | rfl | rfl
  · exact local_anyWord
  · exact local_number
  · exact local_letters
  · exact local_greeting
  · exact local_sentence
  · exact local_nested
  · exact local_nothing
  · exact local_garbled

theorem mem_kinds {kind : String} : kind ∈ grammar.kinds ↔ kind = "AnyWord" ∨ kind = "Number" ∨
    kind = "Letters" ∨ kind = "Greeting" ∨ kind = "Sentence" ∨ kind = "Nested" ∨ kind = "Empty" ∨
    kind = "Garbled" := by
  simp only [Grammar.kinds, grammar, List.map_cons, List.map_nil, List.mem_cons, List.not_mem_nil,
    or_false]
  rfl

end Phrase

/-! ## Scripts -/

namespace Script

variable {d : Nat} {ids : List NodeId}

theorem local_identifier : identifier.Local :=
  .of_sees (fun _ _ => .act_bind rfl fun _ => .done ⟨rfl, List.nil_sublist _⟩)
    (.regex namePattern) fun _ _ _ => rfl

theorem local_number : number.Local := by
  refine .of_sees (fun d options => ?_) (.regex numberPattern) fun _ _ _ => rfl
  refine .act_bind rfl fun literal => ?_
  cases numberValue? literal.toList with
  | none => exact .fail _
  | some value => exact .done ⟨rfl, List.nil_sublist _⟩

/-- A result of a program that makes no node. -/
private abbrev Alone (ids : List NodeId) {α : Type} (ids' : List NodeId) (a a' : α) : Prop :=
  ids' = ids ∧ a = a'

theorem local_readEscape (escapes : List (String × Char)) :
    (readEscape escapes).Local d (Alone ids) ids (readEscape escapes) := by
  induction escapes with
  | nil => exact .done ⟨rfl, rfl⟩
  | cons escape rest ih =>
    refine .act_bind rfl fun taken => ?_
    cases taken with
    | none => exact ih
    | some _ => exact .done ⟨rfl, rfl⟩

theorem local_readItem : readItem.Local d (Alone ids) ids readItem := by
  refine .act_bind rfl fun plain => ?_
  cases plain with
  | some plain => exact .done ⟨rfl, rfl⟩
  | none =>
  refine .act_bind rfl fun quote => ?_
  cases quote with
  | some _ => exact .done ⟨rfl, rfl⟩
  | none =>
  refine .act_bind rfl fun braced => ?_
  cases braced with
  | some _ =>
    exact .act_bind rfl fun hex => .act_bind rfl fun _ => .act_bind rfl fun c => .done ⟨rfl, rfl⟩
  | none =>
  refine .bind (local_readEscape escapes) ?_
  rintro _ c _ ⟨rfl, rfl⟩
  cases c with
  | some c => exact .done ⟨rfl, rfl⟩
  | none =>
  refine .state_bind fun s s' hahead => ?_
  rw [Cursor.atEnd, Cursor.atEnd, ← hahead]
  split
  · exact .fail _
  · exact .fail _

theorem local_readItems (fuel : Nat) (value : String) :
    (readItems fuel value).Local d (Alone ids) ids (readItems fuel value) := by
  induction fuel generalizing value with
  | zero => exact .fail _
  | succ fuel ih =>
    refine .bind local_readItem ?_
    rintro _ item _ ⟨rfl, rfl⟩
    cases item with
    | none => exact .done ⟨rfl, rfl⟩
    | some item => exact ih _

theorem local_text : text.Local := by
  refine .of_sees (fun d options => ?_) (.literal "\"") fun _ _ _ => rfl
  refine .act_bind rfl fun _ => .state_bind fun s s' hahead => ?_
  rw [← hahead]
  refine .bind (local_readItems _ _) ?_
  rintro _ value _ ⟨rfl, rfl⟩
  exact .done ⟨rfl, List.nil_sublist _⟩

theorem local_call : call.Local := by
  refine .of_sees (fun d options => ?_) (.regex callPattern) fun _ _ _ => rfl
  refine .parse_bind fun name => .act_bind rfl fun _ => .act_bind rfl fun _ =>
    .act_bind rfl fun _ => .act_bind rfl fun closed => ?_
  cases closed with
  | true => exact .act_bind rfl fun _ => .act_bind rfl fun _ => .done ⟨rfl, .refl _⟩
  | false =>
    refine .commaList_bind fun args => .act_bind rfl fun _ => .act_bind rfl fun _ =>
      .done ⟨rfl, ?_⟩
    change (name :: (args ++ [])).Sublist (name :: args)
    rw [List.append_nil]

theorem local_expression : expression.Local where
  starts_eq _ := rfl
  starts_error {sees s options e} h := by
    refine .inr ?_
    simp only [expression] at h
    rcases ht : sees (.production "Text") options with e' | _ | _ <;> rw [ht] at h
    · cases h
      exact ⟨_, _, ht⟩
    · rcases hn : sees (.production "Number") options with e' | _ | _ <;> rw [hn] at h
      · cases h
        exact ⟨_, _, hn⟩
      · exact ⟨_, _, h⟩
      · cases h
    · cases h
  body d options := by
    refine .seesProduction_bind fun text => ?_
    cases text with
    | true => exact .parse_bind fun text => .done ⟨rfl, .refl _⟩
    | false =>
    refine .seesProduction_bind fun number => ?_
    cases number with
    | true => exact .parse_bind fun number => .done ⟨rfl, .refl _⟩
    | false =>
    refine .seesProduction_bind fun identifier => ?_
    cases identifier with
    | false => exact .fail _
    | true =>
    refine .parse_bind fun name => .act_bind rfl fun opened => ?_
    cases opened with
    | false => exact .done ⟨rfl, .refl _⟩
    | true =>
      refine .rewind_bind (List.mem_singleton_self name) (.parse_bind fun call => .done ⟨rfl, ?_⟩)
      exact List.sublist_append_right _ _

theorem local_letBinding : letBinding.Local := by
  refine .of_seesWord (fun d options => ?_) fun _ _ _ => rfl
  exact .act_bind rfl fun _ => .parse_bind fun name => .act_bind rfl fun _ =>
    .act_bind rfl fun _ => .act_bind rfl fun _ => .parse_bind fun value =>
    .act_bind rfl fun _ => .act_bind rfl fun _ => .done ⟨rfl, .refl _⟩

theorem local_script : script.Local where
  starts_eq _ := rfl
  starts_error := nofun
  body d options := by
    refine .series_bind fun statements => .act_bind rfl fun _ =>
      .state_bind fun s s' hahead => ?_
    rw [Cursor.atEnd, Cursor.atEnd, ← hahead]
    split
    · exact .done ⟨rfl, list_sublist "statements" statements⟩
    · exact .fail _

theorem locals : ∀ p ∈ grammar.productions, p.Local := by
  intro p hp
  simp only [grammar, List.mem_cons, List.not_mem_nil, or_false] at hp
  rcases hp with rfl | rfl | rfl | rfl | rfl | rfl | rfl
  · exact local_identifier
  · exact local_number
  · exact local_text
  · exact local_call
  · exact local_expression
  · exact local_letBinding
  · exact local_script

theorem mem_kinds {kind : String} : kind ∈ grammar.kinds ↔ kind = "Identifier" ∨ kind = "Number" ∨
    kind = "Text" ∨ kind = "Call" ∨ kind = "Expression" ∨ kind = "Let" ∨ kind = "Script" := by
  simp only [Grammar.kinds, grammar, List.map_cons, List.map_nil, List.mem_cons, List.not_mem_nil,
    or_false]
  rfl

end Script

theorem Grammar.locals {g : Grammar} (hg : g = Script.grammar ∨ g = Phrase.grammar) :
    ∀ p ∈ g.productions, p.Local := by
  rcases hg with rfl | rfl
  · exact Script.locals
  · exact Phrase.locals

end Descent
