import Descent.Json.Inclusion
import Descent.Proofs.Json.Canonical
import Mathlib.Data.List.Forall2

/-!
# Inclusion as an order

* `Json.PartOf`: the elements of an array and the values of the members of an object;
* `Json.SameShape`: two values of one shape, with a relation between the parts.

Equality and inclusion differ in what they ask of the members of two objects and in nothing else,
so each of them is `SameShape` with relations of its own (`equal_iff`, `includedIn_iff`). Inclusion
is transitive. On canonical values it is reflexive, and two values that include each other are
equal.
-/

namespace Descent

namespace Binary64

variable {x y z : Binary64}

theorem sameValue_refl (x : Binary64) : x.sameValue x := by
  simp [Binary64.sameValue]

theorem sameValue_symm (h : x.sameValue y) : y.sameValue x := by
  simp only [Binary64.sameValue, Bool.and_eq_true, Bool.or_eq_true, beq_iff_eq] at h ⊢
  exact ⟨h.1.symm, h.2.imp (h.1 ▸ ·) Eq.symm⟩

theorem sameValue_trans (h : x.sameValue y) (h' : y.sameValue z) :
    x.sameValue z := by
  simp only [Binary64.sameValue, Bool.and_eq_true, Bool.or_eq_true, beq_iff_eq] at h h' ⊢
  refine ⟨h.1.trans h'.1, ?_⟩
  rcases h.2 with hzero | hsign
  · exact .inl hzero
  · exact h'.2.imp (h.1.trans ·) hsign.trans

end Binary64

namespace Json

variable {a b c : Json} {as bs cs : List Json} {ms ns : List (String × Json)}

/-! ## Parts of a value -/

/-- An element of an array, or the value of a member of an object. -/
inductive PartOf : Json → Json → Prop
  | element {j : Json} {elements : List Json} : j ∈ elements → PartOf j (array elements)
  | member {m : String × Json} {members : List (String × Json)} : m ∈ members →
    PartOf m.2 (object members)

/-- What holds of a value as soon as it holds of all its parts holds of every value. -/
theorem induct {P : Json → Prop} (step : ∀ a, (∀ j, PartOf j a → P j) → P a) (a : Json) : P a := by
  refine step a fun j hj => ?_
  have hlt : sizeOf j < sizeOf a := by
    cases hj with
    | element hj =>
      have := List.sizeOf_lt_of_mem hj
      rw [array.sizeOf_spec]
      omega
    | @member m _ hm =>
      have := List.sizeOf_lt_of_mem hm
      have : sizeOf m = 1 + sizeOf m.1 + sizeOf m.2 := Prod.mk.sizeOf_spec ..
      rw [object.sizeOf_spec]
      omega
  exact induct step j
termination_by sizeOf a

theorem Canonical.part (h : b.Canonical) (ha : PartOf a b) : a.Canonical := by
  cases ha with
  | element hj =>
    cases h with
    | array hall => exact hall _ hj
  | member hm =>
    cases h with
    | object _ hall => exact hall _ hm

/-! ## Two lists in parallel -/

section
variable {α β : Type} {R S : α → β → Prop} {l : List α} {r : List β}

private theorem forall₂_of_mem (h : List.Forall₂ R l r)
    (himp : ∀ x ∈ l, ∀ y ∈ r, R x y → S x y) : List.Forall₂ S l r := by
  induction h with
  | nil => exact .nil
  | cons hxy _ ih =>
    refine .cons (himp _ List.mem_cons_self _ List.mem_cons_self hxy) (ih fun x hx y hy => ?_)
    exact himp x (List.mem_cons_of_mem _ hx) y (List.mem_cons_of_mem _ hy)

private theorem forall₂_comp_of_mem {γ : Type} {T : α → γ → Prop} {U : β → γ → Prop} {s : List γ}
    (h : List.Forall₂ R l r) (h' : List.Forall₂ U r s)
    (hcomp : ∀ x ∈ l, ∀ y z, R x y → U y z → T x z) : List.Forall₂ T l s := by
  induction h generalizing s with
  | nil =>
    cases h'
    exact .nil
  | cons hxy _ ih =>
    cases h' with
    | cons hyz h' =>
      refine .cons (hcomp _ List.mem_cons_self _ _ hxy hyz) (ih h' fun x hx => ?_)
      exact hcomp x (List.mem_cons_of_mem _ hx)

private theorem exists_of_forall₂ (h : List.Forall₂ R l r) {x : α} (hx : x ∈ l) :
    ∃ y ∈ r, R x y := by
  induction h with
  | nil => cases hx
  | cons hxy _ ih =>
    rcases List.mem_cons.1 hx with rfl | hx
    · exact ⟨_, List.mem_cons_self, hxy⟩
    · obtain ⟨y, hy, hxy⟩ := ih hx
      exact ⟨y, List.mem_cons_of_mem _ hy, hxy⟩

end

/-! ## Shapes -/

/-- Two values of one shape: equal scalars, two arrays or two objects, the parts of which are
compared by relations of their own. -/
inductive SameShape (elements : List Json → List Json → Prop)
    (members : List (String × Json) → List (String × Json) → Prop) : Json → Json → Prop
  | null : SameShape elements members null null
  | bool (x : Bool) : SameShape elements members (bool x) (bool x)
  | int (n : Int) : SameShape elements members (int n) (int n)
  | float {x y : Binary64} : x.sameValue y → SameShape elements members (float x) (float y)
  | string (s : String) : SameShape elements members (string s) (string s)
  | array {as bs : List Json} : elements as bs → SameShape elements members (array as) (array bs)
  | object {ms ns : List (String × Json)} : members ms ns →
    SameShape elements members (object ms) (object ns)

/-- The elements of two arrays one by one. -/
theorem equalElements_iff : equalElements as bs ↔ List.Forall₂ (fun a b => a.equal b) as bs := by
  induction as generalizing bs with
  | nil => cases bs <;> simp [equalElements]
  | cons a as ih => cases bs <;> simp [equalElements, ih]

theorem equalMembers_iff :
    equalMembers ms ns ↔ List.Forall₂ (fun m n => m.1 = n.1 ∧ m.2.equal n.2) ms ns := by
  induction ms generalizing ns with
  | nil => cases ns <;> simp [equalMembers]
  | cons m ms ih => cases ns <;> simp [equalMembers, ih]

theorem elementsIncludedIn_iff :
    elementsIncludedIn as bs ↔ List.Forall₂ (fun a b => a.includedIn b) as bs := by
  induction as generalizing bs with
  | nil => cases bs <;> simp [elementsIncludedIn]
  | cons a as ih => cases bs <;> simp [elementsIncludedIn, ih]

/-- Each member has a partner of its name. -/
theorem membersIncludedIn_iff : membersIncludedIn ms ns ↔
    ∀ m ∈ ms, ∃ value, ns.lookup m.1 = some value ∧ m.2.includedIn value := by
  induction ms with
  | nil => simp [membersIncludedIn]
  | cons m ms ih =>
    rw [membersIncludedIn, Bool.and_eq_true, ih, List.forall_mem_cons]
    refine and_congr_left' ?_
    cases ns.lookup m.1 <;> simp

theorem equal_iff : a.equal b ↔ SameShape (List.Forall₂ fun a b => a.equal b)
    (List.Forall₂ fun m n => m.1 = n.1 ∧ m.2.equal n.2) a b := by
  constructor
  · intro h
    unfold equal at h
    split at h
    · exact .null
    · obtain rfl := beq_iff_eq.1 h
      exact .bool _
    · obtain rfl := beq_iff_eq.1 h
      exact .int _
    · exact .float h
    · obtain rfl := beq_iff_eq.1 h
      exact .string _
    · exact .array (equalElements_iff.1 h)
    · exact .object (equalMembers_iff.1 h)
    · cases h
  · intro h
    cases h with
    | null => rfl
    | bool | int | string => exact beq_self_eq_true _
    | float h => exact h
    | array h => exact equalElements_iff.2 h
    | object h => exact equalMembers_iff.2 h

theorem includedIn_iff : a.includedIn b ↔ SameShape (List.Forall₂ fun a b => a.includedIn b)
    (fun ms ns => ∀ m ∈ ms, ∃ value, ns.lookup m.1 = some value ∧ m.2.includedIn value) a b := by
  constructor
  · intro h
    unfold includedIn at h
    split at h
    · exact .object (membersIncludedIn_iff.1 h)
    · exact .array (elementsIncludedIn_iff.1 h)
    next hobject harray =>
      cases equal_iff.1 h with
      | null => exact .null
      | bool => exact .bool _
      | int => exact .int _
      | float h => exact .float h
      | string => exact .string _
      | array => exact (harray _ _ rfl rfl).elim
      | object => exact (hobject _ _ rfl rfl).elim
  · intro h
    cases h with
    | null => rfl
    | bool | int | string => exact beq_self_eq_true _
    | float h => exact h
    | array h => exact elementsIncludedIn_iff.2 h
    | object h => exact membersIncludedIn_iff.2 h

/-! ## Equality -/

theorem equal_refl (a : Json) : a.equal a := by
  induction a using induct with
  | step a ih =>
    apply equal_iff.2
    cases a with
    | null => exact .null
    | bool => exact .bool _
    | int => exact .int _
    | float => exact .float (Binary64.sameValue_refl _)
    | string => exact .string _
    | array => exact .array (List.forall₂_same.2 fun j hj => ih j (.element hj))
    | object => exact .object (List.forall₂_same.2 fun m hm => ⟨rfl, ih _ (.member hm)⟩)

theorem equal_symm (h : a.equal b) : b.equal a := by
  induction a using induct generalizing b with
  | step a ih =>
    apply equal_iff.2
    cases equal_iff.1 h with
    | null => exact .null
    | bool => exact .bool _
    | int => exact .int _
    | float hxy => exact .float (Binary64.sameValue_symm hxy)
    | string => exact .string _
    | array hall =>
      exact .array (forall₂_of_mem hall fun x hx _ _ hxy => ih x (.element hx) hxy).flip
    | object hall =>
      refine .object (forall₂_of_mem hall fun m hm n _ hmn => ?_).flip
      exact ⟨hmn.1.symm, ih m.2 (.member hm) hmn.2⟩

/-! ## Inclusion -/

private theorem names_eq_iff :
    ms.map (·.1) = ns.map (·.1) ↔ List.Forall₂ (fun m n => m.1 = n.1) ms ns := by
  rw [← List.forall₂_eq_eq_eq, List.forall₂_map_left_iff, List.forall₂_map_right_iff]

theorem includedIn_of_equal (ha : a.Canonical) (h : a.equal b) : a.includedIn b := by
  induction a using induct generalizing b with
  | step a ih =>
    apply includedIn_iff.2
    cases equal_iff.1 h with
    | null => exact .null
    | bool => exact .bool _
    | int => exact .int _
    | float hxy => exact .float hxy
    | string => exact .string _
    | array hall =>
      refine .array (forall₂_of_mem hall fun x hx _ _ hxy => ?_)
      exact ih x (.element hx) (ha.part (.element hx)) hxy
    | @object ms ns hall =>
      refine .object fun m hm => ?_
      obtain ⟨n, hn, hname, hmn⟩ := exists_of_forall₂ hall hm
      have hnames : ms.map (·.1) = ns.map (·.1) := names_eq_iff.2 (hall.imp fun _ _ hmn => hmn.1)
      have hnodup : (ns.map (·.1)).Nodup := hnames ▸ ha.sorted.nodup
      refine ⟨n.2, ?_, ih m.2 (.member hm) (ha.part (.member hm)) hmn⟩
      rw [hname]
      exact (lookup_eq_some_iff_mem hnodup).2 hn

theorem includedIn_refl (h : a.Canonical) : a.includedIn a :=
  includedIn_of_equal h (equal_refl a)

theorem includedIn_trans (h : a.includedIn b) (h' : b.includedIn c) : a.includedIn c := by
  induction a using induct generalizing b c with
  | step a ih =>
    cases includedIn_iff.1 h with
    | null | bool | int | string => exact h'
    | float hxy =>
      cases includedIn_iff.1 h' with
      | float hyz => exact includedIn_iff.2 (.float (Binary64.sameValue_trans hxy hyz))
    | array hab =>
      cases includedIn_iff.1 h' with
      | array hbc =>
        refine includedIn_iff.2 (.array (forall₂_comp_of_mem hab hbc fun x hx _ _ => ?_))
        exact ih x (.element hx)
    | object hab =>
      cases includedIn_iff.1 h' with
      | object hbc =>
        refine includedIn_iff.2 (.object fun m hm => ?_)
        obtain ⟨v, hv, hmv⟩ := hab m hm
        obtain ⟨w, hw, hvw⟩ := hbc (m.1, v) (mem_of_lookup hv)
        exact ⟨w, hw, ih m.2 (.member hm) hmv hvw⟩

private theorem names_subset
    (h : ∀ m ∈ ms, ∃ value, ns.lookup m.1 = some value ∧ m.2.includedIn value) :
    ms.map (·.1) ⊆ ns.map (·.1) := by
  intro name hname
  obtain ⟨m, hm, rfl⟩ := List.mem_map.1 hname
  obtain ⟨value, hvalue, -⟩ := h m hm
  exact List.mem_map.2 ⟨_, mem_of_lookup hvalue, rfl⟩

/-- Each member is included in the one of its name. -/
private theorem includedIn_of_mem {m n : String × Json}
    (h : ∀ m ∈ ms, ∃ value, ns.lookup m.1 = some value ∧ m.2.includedIn value)
    (hns : SortedMembers ns) (hm : m ∈ ms) (hn : n ∈ ns) (hname : m.1 = n.1) :
    m.2.includedIn n.2 := by
  obtain ⟨value, hvalue, hincluded⟩ := h m hm
  rw [hname, (lookup_eq_some_iff_mem hns.nodup).2 hn] at hvalue
  exact Option.some.inj hvalue ▸ hincluded

theorem equal_of_includedIn (ha : a.Canonical) (hb : b.Canonical) (h : a.includedIn b)
    (h' : b.includedIn a) : a.equal b := by
  induction a using induct generalizing b with
  | step a ih =>
    apply equal_iff.2
    cases includedIn_iff.1 h with
    | null => exact .null
    | bool => exact .bool _
    | int => exact .int _
    | float hxy => exact .float hxy
    | string => exact .string _
    | array hab =>
      cases includedIn_iff.1 h' with
      | array hba =>
        have hboth := List.Forall₂.mp (fun _ _ => And.intro) hab hba.flip
        refine .array (forall₂_of_mem hboth fun x hx y hy hxy => ?_)
        exact ih x (.element hx) (ha.part (.element hx)) (hb.part (.element hy)) hxy.1 hxy.2
    | @object ms ns hmn =>
      cases includedIn_iff.1 h' with
      | object hnm =>
        have hnames : ms.map (·.1) = ns.map (·.1) :=
          ha.sorted.names_eq hb.sorted (names_subset hmn) (names_subset hnm)
        refine .object (forall₂_of_mem (names_eq_iff.1 hnames) fun m hm n hn hname => ⟨hname, ?_⟩)
        exact ih m.2 (.member hm) (ha.part (.member hm)) (hb.part (.member hn))
          (includedIn_of_mem hmn hb.sorted hm hn hname)
          (includedIn_of_mem hnm ha.sorted hn hm hname.symm)

end Json
end Descent
