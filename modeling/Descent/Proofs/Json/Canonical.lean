import Descent.Json.Reader
import Descent.Proofs.Lookup
import Mathlib.Data.List.Sort
import Mathlib.Data.String.Basic

/-!
# Canonical values

* `Json.SortedMembers`: members sorted by name, each name once;
* `Json.Canonical`: values whose objects, at every depth, have such members.

A value that is put together with `ofMembers` is canonical, and so is every value that is read from
a text.
-/

namespace Descent.Json

variable {name : String} {value : Json} {members members' : List (String × Json)}

/-! ## Members by name -/

/-- Members sorted by name, each name once. -/
def SortedMembers (members : List (String × Json)) : Prop :=
  (members.map (·.1)).Pairwise (· < ·)

theorem SortedMembers.nodup (h : SortedMembers members) : (members.map (·.1)).Nodup :=
  h.imp ne_of_lt

/-- Sorted members of the same names have them in the same order. -/
theorem SortedMembers.names_eq (h : SortedMembers members) (h' : SortedMembers members')
    (hsub : members.map (·.1) ⊆ members'.map (·.1))
    (hsub' : members'.map (·.1) ⊆ members.map (·.1)) :
    members.map (·.1) = members'.map (·.1) :=
  List.Pairwise.eq_of_mem_iff h h' fun _ => ⟨@hsub _, @hsub' _⟩

theorem mem_insertMember {member : String × Json} (h : member ∈ insertMember name value members) :
    member = (name, value) ∨ member ∈ members := by
  induction members with
  | nil => exact .inl (List.mem_singleton.1 h)
  | cons other rest ih =>
    rw [insertMember] at h
    split at h
    · exact List.mem_cons.1 h
    split at h
    · exact (List.mem_cons.1 h).imp_right (List.mem_cons_of_mem _)
    · rcases List.mem_cons.1 h with rfl | h
      · exact .inr List.mem_cons_self
      · exact (ih h).imp_right (List.mem_cons_of_mem _)

theorem SortedMembers.insertMember (h : SortedMembers members) :
    SortedMembers (insertMember name value members) := by
  induction members with
  | nil => exact List.pairwise_singleton ..
  | cons other rest ih =>
    obtain ⟨n, v⟩ := other
    obtain ⟨hfirst, hrest⟩ := List.pairwise_cons.1 h
    rw [Json.insertMember]
    split
    next hlt =>
      refine List.pairwise_cons.2 ⟨fun m hm => ?_, h⟩
      rcases List.mem_cons.1 hm with rfl | hm
      · exact hlt
      · exact hlt.trans (hfirst m hm)
    next hge =>
    split
    next heq => exact List.pairwise_cons.2 ⟨heq ▸ hfirst, hrest⟩
    next hne =>
      have hlt : n < name := lt_of_le_of_ne (not_lt.1 hge) (Ne.symm hne)
      refine List.pairwise_cons.2 ⟨fun m hm => ?_, ih hrest⟩
      obtain ⟨member, hmember, rfl⟩ := List.mem_map.1 hm
      rcases mem_insertMember hmember with rfl | hmember
      · exact hlt
      · exact hfirst _ (List.mem_map_of_mem hmember)

/-- A member of a new name is added to the others. -/
theorem insertMember_perm (h : name ∉ members.map (·.1)) :
    (insertMember name value members).Perm ((name, value) :: members) := by
  induction members with
  | nil => exact .refl _
  | cons other rest ih =>
    rw [List.map_cons, List.mem_cons, not_or] at h
    rw [insertMember]
    split
    · exact .refl _
    · rw [if_neg h.1]
      exact ((ih h.2).cons other).trans (.swap ..)

/-- Some members put in order one after the other. -/
def sortMembers (members : List (String × Json)) : List (String × Json) :=
  members.foldl (fun sorted (name, value) => insertMember name value sorted) []

theorem sorted_sortMembers (members : List (String × Json)) :
    SortedMembers (sortMembers members) := by
  refine List.foldlRecOn members _ (motive := SortedMembers) List.Pairwise.nil ?_
  exact fun _ h _ _ => h.insertMember

theorem mem_sortMembers {member : String × Json} (h : member ∈ sortMembers members) :
    member ∈ members := by
  refine List.foldlRecOn members _ (motive := fun sorted => ∀ m ∈ sorted, m ∈ members) ?_ ?_ _ h
  · nofun
  · intro sorted hsorted m hm m' hm'
    rcases mem_insertMember hm' with rfl | hm'
    · exact hm
    · exact hsorted m' hm'

/-- Members of different names are all kept. -/
theorem sortMembers_perm (h : (members.map (·.1)).Nodup) :
    (sortMembers members).Perm members := by
  suffices hfold : ∀ sorted, ((members ++ sorted).map (·.1)).Nodup →
      (members.foldl (fun sorted (name, value) => insertMember name value sorted) sorted).Perm
        (members ++ sorted) by
    simpa [sortMembers] using hfold [] (by simpa using h)
  clear h
  intro sorted hnodup
  induction members generalizing sorted with
  | nil => exact .refl _
  | cons member rest ih =>
    obtain ⟨hnew, hrest⟩ := List.nodup_cons.1 (List.map_cons ▸ List.cons_append ▸ hnodup)
    have hinsert : (insertMember member.1 member.2 sorted).Perm (member :: sorted) :=
      insertMember_perm fun hm => hnew (by simp [List.mem_map.1 hm])
    have hmoved : (rest ++ insertMember member.1 member.2 sorted).Perm
        (member :: (rest ++ sorted)) :=
      (hinsert.append_left rest).trans List.perm_middle
    refine (ih _ ?_).trans hmoved
    exact ((hmoved.map _).nodup_iff).2 hnodup

theorem lookup_sortMembers (h : (members.map (·.1)).Nodup) :
    (sortMembers members).lookup name = members.lookup name := by
  have hperm := sortMembers_perm h
  ext value
  rw [lookup_eq_some_iff_mem (sorted_sortMembers members).nodup, lookup_eq_some_iff_mem h,
    hperm.mem_iff]

/-! ## Values -/

/-- Values in which every object, at any depth, has its members sorted by name, each name once. -/
inductive Canonical : Json → Prop
  | null : Canonical null
  | bool (b : Bool) : Canonical (bool b)
  | int (n : Int) : Canonical (int n)
  | float (x : Binary64) : Canonical (float x)
  | string (s : String) : Canonical (string s)
  | array {elements : List Json} : (∀ j ∈ elements, Canonical j) → Canonical (array elements)
  | object {members : List (String × Json)} : SortedMembers members →
    (∀ m ∈ members, Canonical m.2) → Canonical (object members)

theorem Canonical.sorted (h : (Json.object members).Canonical) : SortedMembers members := by
  cases h with
  | object hsorted _ => exact hsorted

theorem Canonical.ofMembers (h : ∀ m ∈ members, m.2.Canonical) :
    (Json.ofMembers members).Canonical :=
  .object (sorted_sortMembers members) fun m hm => h m (mem_sortMembers hm)

theorem NumberLiteral.canonical {literal : NumberLiteral} {j : Json}
    (h : literal.value? = some j) : j.Canonical := by
  have hfloat {x? : Option Binary64} (h : x?.map Json.float = some j) : j.Canonical := by
    obtain ⟨x, -, rfl⟩ := Option.map_eq_some_iff.1 h
    exact .float x
  have hint {p : Prop} [Decidable p] {n : Int} {x? : Option Binary64}
      (h : (if p then some (Json.int n) else x?.map Json.float) = some j) : j.Canonical := by
    split at h
    · cases h
      exact .int n
    · exact hfloat h
  obtain ⟨negative, whole, fraction, exponent⟩ := literal
  simp only [value?] at h
  split at h
  · split at h
    · exact hint h
    · exact hint h
    · cases h
  · exact hfloat h

mutual

theorem canonical_of_ofDocument? {j : Json} : ∀ {d : Document}, ofDocument? d = some j → j.Canonical
  | .null, h => by cases h; exact .null
  | .bool _, h => by cases h; exact .bool _
  | .number _, h => NumberLiteral.canonical h
  | .string _, h => by
    obtain ⟨s, -, rfl⟩ := Option.map_eq_some_iff.1 h
    exact .string s
  | .array _, h => by
    obtain ⟨elements, helements, rfl⟩ := Option.map_eq_some_iff.1 h
    exact .array (canonical_of_ofElements? helements)
  | .object _, h => by
    obtain ⟨members, hmembers, rfl⟩ := Option.map_eq_some_iff.1 h
    exact .ofMembers (canonical_of_ofMembers? hmembers)

theorem canonical_of_ofElements? : ∀ {ds : List Document} {elements : List Json},
    ofElements? ds = some elements → ∀ j ∈ elements, j.Canonical
  | [], _, h => by cases h; nofun
  | _ :: _, _, h => by
    obtain ⟨j, hj, h⟩ := Option.bind_eq_some_iff.1 h
    obtain ⟨elements, helements, rfl⟩ := Option.map_eq_some_iff.1 h
    exact List.forall_mem_cons.2 ⟨canonical_of_ofDocument? hj, canonical_of_ofElements? helements⟩

theorem canonical_of_ofMembers? : ∀ {ds : List (List Nat × Document)} {members},
    ofMembers? ds = some members → ∀ m ∈ members, m.2.Canonical
  | [], _, h => by cases h; nofun
  | _ :: _, _, h => by
    obtain ⟨n, -, h⟩ := Option.bind_eq_some_iff.1 h
    obtain ⟨j, hj, h⟩ := Option.bind_eq_some_iff.1 h
    obtain ⟨members, hmembers, rfl⟩ := Option.map_eq_some_iff.1 h
    exact List.forall_mem_cons.2 ⟨canonical_of_ofDocument? hj, canonical_of_ofMembers? hmembers⟩

end

/-- Every value that is read from a text is canonical. -/
theorem canonical_of_read? {text : String} {j : Json} (h : read? text = some j) : j.Canonical := by
  obtain ⟨d, -, hd⟩ := Option.bind_eq_some_iff.1 h
  exact canonical_of_ofDocument? hd

end Descent.Json
