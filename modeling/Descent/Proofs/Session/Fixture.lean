import Descent.Fixture
import Descent.Phrase
import Descent.Proofs.Json.Inclusion

/-!
# What a fixture of fields asks

* `Fixture.FindsFields`: the fields that a fixture finds in its two parses.

A fixture finds the same fields whatever it asks for, and it compares what it asks for with the
fields of either parse (`checkFields_eq_ok_iff`). So it passes with everything that is included in
what it passes with.
-/

namespace Descent.Fixture

variable {f : Fixture} {g : Grammar} {kind input : String} {options : Options} {asked : Json}

/-- A production is there, and a text parses to some fields, `first`; the node is written, as a
copy, and what is written parses to the fields `second`. -/
def FindsFields (g : Grammar) (kind : String) (options : Options) (input : String)
    (first second : Json) : Prop :=
  g.sees (.ofText input g) (.production kind) options = .ok true ∧
    ∃ id s copied tree id' s', parse g kind options input = (.ok id, s) ∧
      s.tree.copy id = (.ok copied, tree) ∧
      parse g kind options (g.write tree copied options) = (.ok id', s') ∧
      s.tree.json id = first ∧ s'.tree.json id' = second

theorem checkFields_eq_ok_iff : f.checkFields g kind asked = .ok () ↔
    ∃ first second, FindsFields g kind f.options f.input first second ∧ asked.includedIn first ∧
      asked.includedIn second := by
  constructor
  · intro h
    unfold checkFields at h
    rcases hsees : g.sees (.ofText f.input g) (.production kind) f.options with e | _ | _ <;>
      rw [hsees] at h
    · cases h
    · cases h
    rcases hparse : parse g kind f.options f.input with ⟨_ | id, s⟩ <;> rw [hparse] at h
    · cases h
    have hfirst : asked.includedIn (s.tree.json id) := by
      by_contra hfirst
      simp only [hfirst] at h
      cases h
    simp only [hfirst] at h
    rcases hcopy : s.tree.copy id with ⟨_ | copied, tree⟩ <;> rw [hcopy] at h
    · cases h
    rcases hreread : parse g kind f.options (g.write tree copied f.options) with ⟨_ | id', s'⟩ <;>
      simp only [hreread] at h
    · cases h
    have hsecond : asked.includedIn (s'.tree.json id') := by
      by_contra hsecond
      simp only [hsecond] at h
      cases h
    exact ⟨_, _, ⟨hsees, id, s, copied, tree, id', s', hparse, hcopy, hreread, rfl, rfl⟩, hfirst,
      hsecond⟩
  · rintro ⟨first, second, ⟨hsees, id, s, copied, tree, id', s', hparse, hcopy, hreread, rfl, rfl⟩,
      hfirst, hsecond⟩
    simp [checkFields, hsees, hparse, hfirst, hcopy, hreread, hsecond]
    rfl

theorem check_fields_eq_ok_iff {grammar : Except Failure Grammar} :
    check ⟨input, options, .fields asked⟩ grammar kind = .ok () ↔
      ∃ g, grammar = .ok g ∧ ∃ first second, FindsFields g kind options input first second ∧
        asked.includedIn first ∧ asked.includedIn second := by
  cases grammar with
  | error e => simp [check]
  | ok g =>
    refine checkFields_eq_ok_iff.trans ⟨fun h => ⟨g, rfl, h⟩, ?_⟩
    rintro ⟨_, ⟨⟩, h⟩
    exact h

/-- **Inclusion is an order, and fixtures are monotone in it.** Every value includes itself,
inclusion is transitive, and two values include each other exactly if they are equal. If a fixture
passes, so does every fixture that asks for less of the same parse. -/
theorem includedIn_orders_fixtures :
    (∀ a : Json, a.Canonical → a.includedIn a) ∧
    (∀ a b c : Json, a.includedIn b → b.includedIn c → a.includedIn c) ∧
    (∀ a b : Json, a.Canonical → b.Canonical → (a.includedIn b ∧ b.includedIn a ↔ a.equal b)) ∧
    ∀ (grammar : Except Failure Grammar) (kind input : String) (options : Options)
      (asked less : Json), check ⟨input, options, .fields asked⟩ grammar kind = .ok () →
      less.includedIn asked → check ⟨input, options, .fields less⟩ grammar kind = .ok () := by
  refine ⟨fun a => Json.includedIn_refl, fun a b c => Json.includedIn_trans, fun a b ha hb => ?_,
    fun grammar kind input options asked less hpass hless => ?_⟩
  · constructor
    · rintro ⟨hab, hba⟩
      exact Json.equal_of_includedIn ha hb hab hba
    · intro h
      exact ⟨Json.includedIn_of_equal ha h, Json.includedIn_of_equal hb (Json.equal_symm h)⟩
  · obtain ⟨g, hg, first, second, hfinds, hfirst, hsecond⟩ := check_fields_eq_ok_iff.1 hpass
    exact check_fields_eq_ok_iff.2 ⟨g, hg, first, second, hfinds,
      Json.includedIn_trans hless hfirst, Json.includedIn_trans hless hsecond⟩

/-- A fixture asks for one of two words, and then for none; the two zeros are one value. -/
theorem includedIn_orders_fixtures_sentence :
    let words (elements : List Json) : Json := .ofMembers [("words", .array elements)]
    let asked := words [.ofMembers [("word", .string "alpha")], .ofMembers []]
    let less := words [.ofMembers [], .ofMembers []]
    let zero (negative : Bool) : Json := .array [.float (.zero negative)]
    asked.Canonical ∧ asked.includedIn asked ∧
      less.includedIn asked ∧ (Json.ofMembers []).includedIn less ∧
      (Json.ofMembers []).includedIn asked ∧ ¬asked.includedIn less ∧
      (zero false).includedIn (zero true) ∧ (zero true).includedIn (zero false) ∧
      (zero false).equal (zero true) ∧
      check ⟨"alpha beta.", none, .fields asked⟩ (.ok Phrase.grammar) "Sentence" = .ok () ∧
      check ⟨"alpha beta.", none, .fields less⟩ (.ok Phrase.grammar) "Sentence" = .ok () := by
  intro words asked less zero
  have hasked : asked.Canonical := by
    refine .ofMembers fun m hm => ?_
    obtain rfl := List.mem_singleton.1 hm
    have hword : (Json.ofMembers [("word", .string "alpha")]).Canonical :=
      .ofMembers (List.forall_mem_singleton.2 (.string _))
    have hempty : (Json.ofMembers []).Canonical := .ofMembers (List.forall_mem_nil _)
    exact .array (List.forall_mem_cons.2 ⟨hword, List.forall_mem_singleton.2 hempty⟩)
  have hzero (negative : Bool) : (zero negative).Canonical :=
    .array (List.forall_mem_singleton.2 (.float _))
  have hless : less.includedIn asked := by decide +kernel
  have hnone : (Json.ofMembers []).includedIn less := by decide +kernel
  have hzeros : (zero false).includedIn (zero true) ∧ (zero true).includedIn (zero false) := by
    decide +kernel
  have hpass : check ⟨"alpha beta.", none, .fields asked⟩ (.ok Phrase.grammar) "Sentence" =
      .ok () := by
    have hok : (check ⟨"alpha beta.", none, .fields asked⟩ (.ok Phrase.grammar)
      "Sentence").toOption.isSome := by decide +kernel
    rcases hcheck : check ⟨"alpha beta.", none, .fields asked⟩ (.ok Phrase.grammar) "Sentence"
      with _ | ⟨⟩
    · rw [hcheck] at hok
      cases hok
    · rfl
  obtain ⟨hrefl, htrans, hantisymm, hmono⟩ := includedIn_orders_fixtures
  exact ⟨hasked, hrefl _ hasked, hless, hnone, htrans _ _ _ hnone hless, by decide +kernel,
    hzeros.1, hzeros.2, (hantisymm _ _ (hzero _) (hzero _)).1 hzeros, hpass,
    hmono _ _ _ _ _ _ hpass hless⟩

end Descent.Fixture
