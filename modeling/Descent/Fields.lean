import Descent.Json.Basic

/-!
# Fields

The named fields of a node, in the order in which they were first set. A field holds a plain value,
another node, or a list of nodes.
-/

namespace Descent

/-- The number of a node in its tree. -/
structure NodeId where
  index : Nat
deriving DecidableEq, Repr

/-- What a field holds. -/
inductive Field
  | scalar (value : Json)
  | node (id : NodeId)
  | list (ids : List NodeId)

namespace Field

/-- The nodes that a field refers to. -/
def children : Field → List NodeId
  | scalar _ => []
  | node id => [id]
  | list ids => ids

def equal : Field → Field → Bool
  | scalar a, scalar b => a.equal b
  | node a, node b => a == b
  | list as, list bs => as == bs
  | _, _ => false

def string (s : String) : Field := scalar (.string s)

end Field

/-- The fields of a node by name, each name once. -/
structure Fields where
  entries : List (String × Field)
  nodup : (entries.map (·.1)).Nodup

namespace Fields

def empty : Fields := ⟨[], .nil⟩

instance : Inhabited Fields := ⟨empty⟩

/-- Puts a value in the place of the entry with its name, or at the end if there is none. -/
def setEntry (name : String) (value : Field) :
    List (String × Field) → List (String × Field)
  | [] => [(name, value)]
  | (n, v) :: rest =>
    if n = name then (n, value) :: rest else (n, v) :: setEntry name value rest

/-- A name that is set anew comes last. -/
theorem map_fst_setEntry (name : String) (value : Field) (entries : List (String × Field)) :
    (setEntry name value entries).map (·.1) =
      if name ∈ entries.map (·.1) then entries.map (·.1) else entries.map (·.1) ++ [name] := by
  induction entries with
  | nil => simp [setEntry]
  | cons entry rest ih =>
    obtain ⟨n, v⟩ := entry
    by_cases h : n = name
    · simp [setEntry, h]
    · have h' : ¬name = n := fun he => h he.symm
      rw [setEntry, if_neg h, List.map_cons, ih]
      by_cases hm : name ∈ rest.map (·.1)
      · simp [hm]
      · simp [hm, h']

theorem nodup_setEntry {name : String} {value : Field} {entries : List (String × Field)}
    (h : (entries.map (·.1)).Nodup) : ((setEntry name value entries).map (·.1)).Nodup := by
  rw [map_fst_setEntry]
  split
  · exact h
  next hm =>
    refine List.nodup_append.2 ⟨h, by simp, ?_⟩
    rintro a ha b hb rfl
    exact hm (List.mem_singleton.1 hb ▸ ha)

/-- Sets a field. One of this name keeps its place and takes the new value. -/
def set (fields : Fields) (name : String) (value : Field) : Fields :=
  ⟨setEntry name value fields.entries, nodup_setEntry fields.nodup⟩

/-- The fields set one after the other. -/
def ofList (entries : List (String × Field)) : Fields :=
  entries.foldl (fun fields (name, value) => fields.set name value) empty

def get? (fields : Fields) (name : String) : Option Field :=
  fields.entries.lookup name

def erase (fields : Fields) (name : String) : Fields :=
  ⟨fields.entries.eraseP (·.1 == name),
    fields.nodup.sublist (List.eraseP_sublist.map _)⟩

/-- Takes a field out: what it held, if there was one of this name, and the other fields. -/
def extract (fields : Fields) (name : String) : Option Field × Fields :=
  (fields.get? name, fields.erase name)

def contains (fields : Fields) (name : String) : Bool :=
  (fields.get? name).isSome

def scalar? (fields : Fields) (name : String) : Option Json :=
  match fields.get? name with
  | some (.scalar value) => some value
  | _ => none

def string? (fields : Fields) (name : String) : Option String :=
  (fields.scalar? name).bind Json.string?

def node? (fields : Fields) (name : String) : Option NodeId :=
  match fields.get? name with
  | some (.node id) => some id
  | _ => none

/-- The list of nodes of a name, which is empty if the name has none. -/
def list (fields : Fields) (name : String) : List NodeId :=
  match fields.get? name with
  | some (.list ids) => ids
  | _ => []

/-- All nodes that the fields refer to, in order. -/
def children (fields : Fields) : List NodeId :=
  fields.entries.flatMap (·.2.children)

def size (fields : Fields) : Nat :=
  fields.entries.length

/-- Equality of entries one by one. -/
def equalEntries : List (String × Field) → List (String × Field) → Bool
  | [], [] => true
  | (m, a) :: as, (n, b) :: bs => m == n && a.equal b && equalEntries as bs
  | _, _ => false

/-- Whether two nodes have the same fields in the same order. -/
def equal (a b : Fields) : Bool :=
  equalEntries a.entries b.entries

end Fields
end Descent
