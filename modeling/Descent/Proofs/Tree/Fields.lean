import Descent.Proofs.Json.Canonical
import Descent.Proofs.Tree.Walk
import Mathlib.Data.Finmap

/-!
# Fields as a map in the order of insertion

* `Fields.Update`: a name that is set or removed;
* `Fields.updated`, `Fields.mapped`: what updates make of no fields, and of the empty finite map;
* `Fields.Represents`: fields that answer every question as a finite map does;
* `Fields.Introduces`: the update that set a name when it was last absent.

The finite map has no order, and `Introduces` is about the map alone. One update keeps the
agreement, and it adds or removes one name at most, so that the names of the fields can be paired
with the updates that introduced them.
-/

namespace Descent

namespace Fields

variable {fields : Fields} {name n : String} {value : Field} {i j : Nat}

/-! ## Names -/

def names (fields : Fields) : List String :=
  fields.entries.map (·.1)

theorem nodup_names (fields : Fields) : fields.names.Nodup :=
  fields.nodup

theorem get?_eq_some_iff : fields.get? name = some value ↔ (name, value) ∈ fields.entries :=
  lookup_eq_some_iff_mem fields.nodup_names

theorem mem_names_iff : name ∈ fields.names ↔ ∃ value, fields.get? name = some value := by
  simp only [names, get?_eq_some_iff, List.mem_map, Prod.exists, exists_and_right, exists_eq_right]

theorem names_set : (fields.set name value).names =
    if name ∈ fields.names then fields.names else fields.names ++ [name] :=
  map_fst_setEntry name value fields.entries

theorem names_erase : (fields.erase name).names = fields.names.erase name := by
  rw [names, names, List.erase_eq_eraseP', List.eraseP_map]
  rfl

/-! ## One update -/

private theorem lookup_setEntry (entries : List (String × Field)) :
    (setEntry name value entries).lookup n = if n = name then some value else entries.lookup n := by
  induction entries with
  | nil =>
    rw [setEntry, List.lookup_cons]
    split
    next h => rw [if_pos (eq_of_beq h)]
    next h => rw [if_neg (ne_of_beq_false h)]
  | cons entry rest ih =>
    obtain ⟨m, v⟩ := entry
    by_cases hm : m = name
    · rw [setEntry, if_pos hm, hm, List.lookup_cons, List.lookup_cons]
      by_cases h : n = name
      · simp [h]
      · simp [h, beq_false_of_ne h]
    · rw [setEntry, if_neg hm, List.lookup_cons, List.lookup_cons, ih]
      by_cases h : n = m
      · simp [h, hm]
      · simp [beq_false_of_ne h]

theorem get?_set : (fields.set name value).get? n =
    if n = name then some value else fields.get? n :=
  lookup_setEntry fields.entries

theorem get?_erase : (fields.erase name).get? n = if n = name then none else fields.get? n := by
  split
  next h =>
    subst h
    refine Option.eq_none_iff_forall_ne_some.2 fun value hget => ?_
    have hmem : n ∈ (fields.erase n).names := mem_names_iff.2 ⟨value, hget⟩
    rw [names_erase] at hmem
    exact fields.nodup_names.not_mem_erase hmem
  next h =>
    ext value
    rw [get?_eq_some_iff, get?_eq_some_iff]
    exact List.mem_eraseP_of_neg (by simpa using h)

/-- A name that is set or removed. -/
inductive Update
  | set (name : String) (value : Field)
  | erase (name : String)

def update (fields : Fields) : Update → Fields
  | .set name value => fields.set name value
  | .erase name => fields.erase name

/-- What updates make of no fields. -/
def updated (updates : List Update) : Fields :=
  updates.foldl update empty

/-- A finite map from names to what fields hold. -/
abbrev Mapping := Finmap fun _ : String => Field

def Mapping.update (map : Mapping) : Update → Mapping
  | .set name value => map.insert name value
  | .erase name => map.erase name

/-- What updates make of the empty map. -/
def mapped (updates : List Update) : Mapping :=
  updates.foldl Mapping.update ∅

variable {map : Mapping} {updates : List Update} {u : Update}

@[simp] theorem updated_append : updated (updates ++ [u]) = (updated updates).update u := by
  rw [updated, List.foldl_append]
  rfl

@[simp] theorem mapped_append : mapped (updates ++ [u]) = (mapped updates).update u := by
  rw [mapped, List.foldl_append]
  rfl

/-! ## Agreement with a finite map -/

/-- Fields that answer every question as a finite map does. -/
structure Represents (fields : Fields) (map : Mapping) : Prop where
  get? : ∀ name, fields.get? name = map.lookup name
  contains : ∀ name, fields.contains name = decide (name ∈ map)
  scalar? : ∀ name value, fields.scalar? name = some value ↔
    map.lookup name = some (.scalar value)
  node? : ∀ name id, fields.node? name = some id ↔ map.lookup name = some (.node id)
  list : ∀ name ids, map.lookup name = some (.list ids) → fields.list name = ids
  list_nil : ∀ name, (∀ ids, map.lookup name ≠ some (.list ids)) → fields.list name = []
  mem_entries : ∀ name value, (name, value) ∈ fields.entries ↔ map.lookup name = some value
  size : fields.size = map.keys.card

private theorem mem_names_iff_mem (h : ∀ name, fields.get? name = map.lookup name) :
    name ∈ fields.names ↔ name ∈ map := by
  rw [mem_names_iff, Finmap.mem_iff, h]

/-- Every question comes down to what a name is set to. -/
theorem represents_of_get? (h : ∀ name, fields.get? name = map.lookup name) :
    fields.Represents map where
  get? := h
  contains name := by
    rw [Bool.eq_iff_iff, decide_eq_true_iff, ← mem_names_iff_mem h, mem_names_iff, contains,
      Option.isSome_iff_exists]
  scalar? name value := by
    rw [← h, Fields.scalar?]
    split <;> simp_all
  node? name id := by
    rw [← h, Fields.node?]
    split <;> simp_all
  list name ids hlist := by
    rw [Fields.list, h, hlist]
  list_nil name hlist := by
    rw [Fields.list, h]
    split
    next ids hids => exact absurd hids (hlist ids)
    next => rfl
  mem_entries name value := by
    rw [← get?_eq_some_iff, h]
  size := by
    have hkeys : fields.names.toFinset = map.keys := by
      ext name
      rw [List.mem_toFinset, Finmap.mem_keys, mem_names_iff_mem h]
    rw [← hkeys, List.toFinset_card_of_nodup fields.nodup_names, names, List.length_map,
      Fields.size]

theorem Represents.mem_names_iff (h : fields.Represents map) : name ∈ fields.names ↔ name ∈ map :=
  mem_names_iff_mem h.get?

theorem represents_empty : empty.Represents ∅ :=
  represents_of_get? fun _ => rfl

theorem Represents.update (h : fields.Represents map) (u : Update) :
    (fields.update u).Represents (map.update u) := by
  refine represents_of_get? fun n => ?_
  cases u with
  | set name value =>
    rw [Fields.update, Mapping.update, get?_set]
    split
    next hn => rw [hn, Finmap.lookup_insert]
    next hn => rw [Finmap.lookup_insert_of_ne _ hn, h.get?]
  | erase name =>
    rw [Fields.update, Mapping.update, get?_erase]
    split
    next hn => rw [hn, Finmap.lookup_erase]
    next hn => rw [Finmap.lookup_erase_ne hn, h.get?]

theorem represents_updated (updates : List Update) :
    (updated updates).Represents (mapped updates) := by
  induction updates using List.reverseRecOn with
  | nil => exact represents_empty
  | append_singleton updates u ih =>
    rw [updated_append, mapped_append]
    exact ih.update u

/-! ## The order of names -/

/-- Update `i` introduces a name: it sets the name, which is absent before it and present after
it and after every later one. -/
structure Introduces (updates : List Update) (i : Nat) (name : String) : Prop where
  sets : ∃ value, updates[i]? = some (.set name value)
  absent : name ∉ mapped (updates.take i)
  present : ∀ j, i < j → name ∈ mapped (updates.take j)

namespace Introduces

theorem lt_length (h : Introduces updates i name) : i < updates.length := by
  obtain ⟨value, hsets⟩ := h.sets
  exact (List.getElem?_eq_some_iff.1 hsets).1

theorem mem (h : Introduces updates i name) : name ∈ mapped updates := by
  have hend := h.present _ h.lt_length
  rwa [List.take_length] at hend

theorem unique (h : Introduces updates i name) (h' : Introduces updates j name) : i = j := by
  rcases Nat.lt_trichotomy i j with hlt | heq | hlt
  · exact absurd (h.present j hlt) h'.absent
  · exact heq
  · exact absurd (h'.present i hlt) h.absent

/-- A further update leaves a name to the one that introduced it, if the name is still there. -/
theorem append (h : Introduces updates i name) (hm : name ∈ mapped (updates ++ [u])) :
    Introduces (updates ++ [u]) i name where
  sets := by
    rw [List.getElem?_append_left h.lt_length]
    exact h.sets
  absent := by
    rw [List.take_append_of_le_length (Nat.le_of_lt h.lt_length)]
    exact h.absent
  present j hj := by
    rcases Nat.lt_or_ge updates.length j with hlt | hle
    · rwa [List.take_of_length_le (List.length_append.trans_le hlt)]
    · rw [List.take_append_of_le_length hle]
      exact h.present j hj

/-- A name that is set while it is absent is introduced. -/
theorem last (h : name ∉ mapped updates) :
    Introduces (updates ++ [.set name value]) updates.length name where
  sets := ⟨value, by simp⟩
  absent := by rwa [List.take_left]
  present j hj := by
    rw [List.take_of_length_le (List.length_append.trans_le hj), mapped_append]
    exact Finmap.mem_insert.2 (.inl rfl)

end Introduces

/-- The names stand in the order of the updates that introduced them. -/
theorem exists_introduced (updates : List Update) : ∃ introduced : List (Nat × String),
    introduced.map (·.2) = (updated updates).names ∧ introduced.Pairwise (·.1 < ·.1) ∧
    ∀ p ∈ introduced, Introduces updates p.1 p.2 := by
  induction updates using List.reverseRecOn with
  | nil => exact ⟨[], rfl, .nil, nofun⟩
  | append_singleton updates u ih =>
    obtain ⟨introduced, hnames, hsorted, hintroduces⟩ := ih
    cases u with
    | set name value =>
      have hold : ∀ p ∈ introduced, Introduces (updates ++ [.set name value]) p.1 p.2 := by
        intro p hp
        refine (hintroduces p hp).append ?_
        rw [mapped_append]
        exact Finmap.mem_insert.2 (.inr (hintroduces p hp).mem)
      rw [updated_append, update, names_set]
      split
      next => exact ⟨introduced, hnames, hsorted, hold⟩
      next hnew =>
        rw [(represents_updated updates).mem_names_iff] at hnew
        refine ⟨introduced ++ [(updates.length, name)], by simp [hnames],
          List.pairwise_append.2 ⟨hsorted, List.pairwise_singleton .., fun p hp q hq => ?_⟩,
          List.forall_mem_append.2 ⟨hold, fun q hq => ?_⟩⟩
        · rw [List.mem_singleton.1 hq]
          exact (hintroduces p hp).lt_length
        · rw [List.mem_singleton.1 hq]
          exact .last hnew
    | erase name =>
      refine ⟨introduced.filter (·.2 != name), ?_, hsorted.filter _, fun p hp => ?_⟩
      · rw [updated_append, update, names_erase,
          (updated updates).nodup_names.erase_eq_filter, ← hnames, List.filter_map]
        rfl
      · obtain ⟨hp, hne⟩ := List.mem_filter.1 hp
        refine (hintroduces p hp).append ?_
        rw [mapped_append]
        exact Finmap.mem_erase.2 ⟨by simpa using hne, (hintroduces p hp).mem⟩

/-! ## Children and JSON -/

/-- The children are those of the names, in the order of the names. -/
theorem children_eq (fields : Fields) : fields.children =
    fields.names.flatMap fun name => (fields.node? name).toList ++ fields.list name := by
  rw [children, names, List.flatMap_map]
  refine List.flatMap_congr fun entry hentry => ?_
  have hget : fields.get? entry.1 = some entry.2 := get?_eq_some_iff.2 hentry
  rw [node?, list, hget]
  cases entry.2 <;> rfl

end Fields

namespace Tree

variable {t : Tree} {id : NodeId} {node : Node}

/-- A node as JSON has one member for each field, and no field is written over another. -/
theorem exists_members (hn : t.node? id = some node) : ∃ members,
    t.json id = .object members ∧ (members.map (·.1)).Perm node.fields.names ∧
    (t.Owned → ∀ name, members.lookup name = (node.fields.get? name).map t.fieldJson) := by
  obtain ⟨members, hjson, hnames⟩ : ∃ members, t.json id = .ofMembers members ∧
      members.map (·.1) = node.fields.names := by
    rw [json]
    simp only [hn]
    exact ⟨_, rfl, by rw [List.map_map]; rfl⟩
  refine ⟨Json.sortMembers members, hjson, ?_, fun h name => ?_⟩
  · have hnodup : (members.map (·.1)).Nodup := hnames ▸ node.fields.nodup_names
    rw [← hnames]
    exact (Json.sortMembers_perm hnodup).map _
  · rw [h.json_eq hn] at hjson
    have hsorted : Json.sortMembers (node.fields.entries.map fun entry =>
        (entry.1, t.fieldJson entry.2)) = Json.sortMembers members := Json.object.inj hjson
    rw [← hsorted, Json.lookup_sortMembers, lookup_map]
    · rfl
    · rw [List.map_map]
      exact node.fields.nodup_names

end Tree

namespace Fields

/-- **Fields are a map in the order of insertion.** Whatever is set and removed, in any order, each
name is there once, and the fields answer as the finite map does that is updated in the same way.
A name that is removed gives what the map holds for it.
The names stand in the order of the updates that introduced them: a name that is set again keeps its
place, and one that was removed in between comes last. The children are those of the fields in this
order, and a node with these fields has one member in JSON for each of them. -/
theorem insertion_ordered (updates : List Update) :
    (updated updates).names.Nodup ∧
    (updated updates).Represents (mapped updates) ∧
    (∀ name, (updated updates).extract name =
      ((mapped updates).lookup name, updated (updates ++ [.erase name]))) ∧
    (∃ introduced : List (Nat × String),
      introduced.map (·.2) = (updated updates).names ∧
      introduced.Pairwise (·.1 < ·.1) ∧
      ∀ i name, (i, name) ∈ introduced ↔ Introduces updates i name) ∧
    (∀ name value, name ∈ (updated updates).names →
      (updated (updates ++ [.set name value])).names = (updated updates).names) ∧
    (∀ name value, (updated (updates ++ [.erase name] ++ [.set name value])).names =
      (updated updates).names.erase name ++ [name]) ∧
    (updated updates).children = ((updated updates).names.flatMap fun name =>
      ((updated updates).node? name).toList ++ (updated updates).list name) ∧
    ∀ (t : Tree) id node, t.node? id = some node → node.fields = updated updates →
      ∃ members, t.json id = .object members ∧
        (members.map (·.1)).Perm (updated updates).names ∧
        (t.Owned → ∀ name, members.lookup name =
          ((mapped updates).lookup name).map t.fieldJson) := by
  have hrepresents := represents_updated updates
  refine ⟨nodup_names _, hrepresents, fun name => ?_, ?_, fun name value hm => ?_,
    fun name value => ?_, children_eq _, fun t id node hn hfields => ?_⟩
  · rw [extract, hrepresents.get?, updated_append, update]
  · obtain ⟨introduced, hnames, hsorted, hintroduces⟩ := exists_introduced updates
    refine ⟨introduced, hnames, hsorted, fun i name => ⟨hintroduces _, fun h => ?_⟩⟩
    have hm : name ∈ introduced.map (·.2) := by
      rw [hnames, hrepresents.mem_names_iff]
      exact h.mem
    obtain ⟨⟨j, m⟩, hp, rfl⟩ := List.mem_map.1 hm
    rwa [h.unique (hintroduces _ hp)]
  · rw [updated_append, update, names_set, if_pos hm]
  · rw [updated_append, updated_append, update, update, names_set, names_erase,
      if_neg (nodup_names _).not_mem_erase]
  · obtain ⟨members, hjson, hnames, hvalues⟩ := Tree.exists_members hn
    refine ⟨members, hjson, hfields ▸ hnames, fun h name => ?_⟩
    rw [hvalues h, hfields, hrepresents.get?]

/-- The name `a` is replaced in its place, removed and set again; `b` is replaced after that. -/
theorem insertion_ordered_again :
    let updates := [.set "a" (.scalar (.int 1)), .set "b" (.node ⟨0⟩), .set "a" (.scalar (.int 2)),
      .erase "a", .set "a" (.scalar (.int 3))]
    let leaf := ((Tree.empty ["Leaf", "Pair"]).append "Leaf" none empty).2
    let t := (leaf.append "Pair" none (updated updates)).2
    (updated updates).names = ["b", "a"] ∧
      (updated (updates ++ [.set "b" (.list [])])).names = ["b", "a"] ∧
      (updated updates).children = [⟨0⟩] ∧ t.Owned ∧ ∃ members,
        t.json ⟨1⟩ = .object members ∧ (members.map (·.1)).Perm ["b", "a"] ∧
        members.lookup "a" = some (.int 3) ∧ members.lookup "b" = some (t.json ⟨0⟩) := by
  intro updates leaf t
  have hnames : (updated updates).names = ["b", "a"] := by decide
  have hleaf : leaf.Owned := (Tree.owned_empty _).append (by decide) ⟨.nil, nofun⟩
  have ht : t.Owned := by
    refine hleaf.append (by decide) ⟨by decide, fun id hid => ?_⟩
    cases List.mem_singleton.1 hid
    exact ⟨_, rfl, rfl⟩
  obtain ⟨-, -, -, -, hkept, -, hchildren, hjson⟩ := insertion_ordered updates
  obtain ⟨members, hobject, hperm, hvalues⟩ := hjson t ⟨1⟩ _ rfl rfl
  refine ⟨hnames, (hkept _ _ (by decide)).trans hnames, hchildren.trans ?_, ht, members, hobject,
    hnames ▸ hperm, ?_, ?_⟩
  · rfl
  · rw [hvalues ht]
    rfl
  · rw [hvalues ht]
    rfl

end Fields
end Descent
