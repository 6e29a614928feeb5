import Descent.Proofs.Program.Grammars
import Descent.Proofs.Script.Soundness
import Descent.Proofs.Session.Shape

/-!
# Shapes of script nodes

* `Fits`: what the fields of a node of each kind are;
* `write?`: how a node is written, if no field that is written is missing.

All productions are fitting, so the nodes of every session that parses scripts have the shapes of
their kinds, whether the parse that made them came to its end or not. No node is written with the
empty text in place of a field.
-/

namespace Descent.Script

/-! ## Fields -/

/-- The value of a literal: an integer of 64 bits or a float, which is finite. -/
inductive IsValue : Json → Prop
  | int {n : Int} : -2 ^ 63 ≤ n → n < 2 ^ 63 → IsValue (.int n)
  | float (x : Binary64) : IsValue (.float x)

/-- What an expression can be: the name of its field and the kind of the node there. -/
def parts : List (String × String) :=
  [("text", "Text"), ("number", "Number"), ("call", "Call"), ("identifier", "Identifier")]

/-- The fields of a node of a kind are these. -/
inductive Fits (t : Tree) : String → List (String × Field) → Prop
  | name {s : String} : IsName s.toList → Fits t "Identifier" [("name", .string s)]
  | number {value : Json} : IsValue value → Fits t "Number" [("value", .scalar value)]
  | text (s : String) : Fits t "Text" [("value", .string s)]
  | call {name : NodeId} {args : List NodeId} : t.HasKind "Identifier" name →
    (∀ arg ∈ args, t.HasKind "Expression" arg) →
    Fits t "Call" [("name", .node name), ("args", .list args)]
  | expression {part kind : String} {id : NodeId} : (part, kind) ∈ parts → t.HasKind kind id →
    Fits t "Expression" [(part, .node id)]
  | binding {name value : NodeId} : t.HasKind "Identifier" name → t.HasKind "Expression" value →
    Fits t "Let" [("name", .node name), ("value", .node value)]
  | script {statements : List NodeId} : (∀ id ∈ statements, t.HasKind "Let" id) →
    Fits t "Script" [("statements", .list statements)]

theorem Fits.keeps {t t' : Tree} {kind : String} {entries : List (String × Field)}
    (hk : t.Keeps t') (h : Fits t kind entries) : Fits t' kind entries := by
  cases h with
  | name hs => exact .name hs
  | number hv => exact .number hv
  | text s => exact .text s
  | call hname hargs => exact .call (hk.hasKind hname) fun arg ha => hk.hasKind (hargs arg ha)
  | expression hpart hid => exact .expression hpart (hk.hasKind hid)
  | binding hname hvalue => exact .binding (hk.hasKind hname) (hk.hasKind hvalue)
  | script hs => exact .script fun id hid => hk.hasKind (hs id hid)

/-- The shapes of the nodes of scripts. -/
def shapes : Shapes where
  Fits t kind fields := Fits t kind fields.entries
  mono hk h := h.keeps hk

theorem Fits.exists_find? {t : Tree} {kind : String} {entries : List (String × Field)}
    (h : Fits t kind entries) : ∃ p, grammar.find? kind = some p := by
  cases h <;> exact ⟨_, rfl⟩

/-! ## Productions -/

theorem isName_of_take {c : Cursor} {message : Option String} {name : String}
    (h : (c.take (.regex namePattern) message).1 = .ok name) : IsName name.toList := by
  cases hspan : nameSpan? c.ahead with
  | none =>
    rw [Cursor.take_of_span_none spans_name hspan] at h
    cases h
  | some span =>
    obtain ⟨c', hc, -⟩ := Cursor.take_of_span_some spans_name hspan message
    rw [hc] at h
    cases h
    rw [String.toList_ofList]
    exact isName_of_nameSpan? hspan

theorem isValue_of_numberValue? {literal : List Char} {value : Json}
    (h : numberValue? literal = some value) : IsValue value := by
  rcases Option.or_eq_some_iff.1 h with h | ⟨-, h⟩
  · obtain ⟨n, hn, rfl⟩ := Option.map_eq_some_iff.1 h
    have hrange := (Option.filter_eq_some_iff.1 hn).2
    simp only [decide_eq_true_eq] at hrange
    exact .int hrange.1 hrange.2
  · obtain ⟨x, -, rfl⟩ := Option.map_eq_some_iff.1 h
    exact .float x

theorem fitting_identifier : identifier.Fitting shapes := by
  intro options
  exact .act_bind fun c name hname => .done fun t _ => .name (isName_of_take hname)

theorem fitting_number : number.Fitting shapes := by
  intro options
  refine .act_bind fun c literal _ => ?_
  cases hvalue : numberValue? literal.toList with
  | none => exact .refuse _
  | some value => exact .done fun t _ => .number (isValue_of_numberValue? hvalue)

theorem fitting_text : text.Fitting shapes := by
  intro options
  refine .act_bind fun _ _ _ => .state_bind fun s => ?_
  -- What the items are makes no difference.
  have hitems := @local_readItems 0 [] (s.cursor.ahead.length + 1) ""
  exact .bind (.of_natural hitems.natural) fun _ value _ => .done fun t _ => .text value

theorem fitting_call : call.Fitting shapes := by
  intro options
  refine .parse_bind fun name => .act_bind fun _ _ _ => .act_bind fun _ _ _ =>
    .act_bind fun _ _ _ => .act_bind fun _ closes _ => ?_
  cases closes
  · refine .commaList_bind fun args => .act_bind fun _ _ _ => .act_bind fun _ _ _ =>
      .done fun t hk => ?_
    exact .call (hk.hasKind (by simp)) fun arg ha => hk.hasKind (by simp [ha])
  · refine .act_bind fun _ _ _ => .act_bind fun _ _ _ => .done fun t hk => ?_
    exact .call (hk.hasKind (by simp)) nofun

theorem fitting_expression : expression.Fitting shapes := by
  intro options
  refine .seesProduction_bind fun sees => ?_
  cases sees
  case true =>
    refine .parse_bind fun id => .done fun t hk => ?_
    exact .expression (by simp [parts]) hk.last
  refine .seesProduction_bind fun sees => ?_
  cases sees
  case true =>
    refine .parse_bind fun id => .done fun t hk => ?_
    exact .expression (by simp [parts]) hk.last
  refine .seesProduction_bind fun sees => ?_
  cases sees
  case false => exact .refuse _
  refine .parse_bind fun name => .act_bind fun _ opens _ => ?_
  cases opens
  · exact .done fun t hk => .expression (by simp [parts]) hk.last
  · refine .rewind_bind (.parse_bind fun id => .done fun t hk => ?_)
    exact .expression (by simp [parts]) hk.last

theorem fitting_letBinding : letBinding.Fitting shapes := by
  intro options
  refine .act_bind fun _ _ _ => .parse_bind fun name => .act_bind fun _ _ _ =>
    .act_bind fun _ _ _ => .act_bind fun _ _ _ => .parse_bind fun value => .act_bind fun _ _ _ =>
    .act_bind fun _ _ _ => .done fun t hk => ?_
  exact .binding (hk.hasKind (by simp)) (hk.hasKind (by simp))

theorem fitting_script : script.Fitting shapes := by
  intro options
  refine .series_bind fun statements => .act_bind fun _ _ _ => .state_bind fun s => ?_
  cases s.cursor.atEnd with
  | false => exact .refuse _
  | true => exact .done fun t hk => .script fun id hid => hk.hasKind (by simpa using hid)

theorem fitting : ∀ p ∈ grammar.productions, p.Fitting shapes := by
  simp only [grammar, List.forall_mem_cons]
  exact ⟨fitting_identifier, fitting_number, fitting_text, fitting_call, fitting_expression,
    fitting_letBinding, fitting_script, List.forall_mem_nil _⟩

/-! ## Writing without defaults -/

/-- The list of nodes of a name, if the name has one. -/
def list? (fields : Fields) (name : String) : Option (List NodeId) :=
  match fields.get? name with
  | some (.list ids) => some ids
  | _ => none

def numberText? : Json → Option String
  | .int n => some (numberText (.int n))
  | .float x => some (numberText (.float x))
  | _ => none

section
variable (child? : NodeId → Option String) (fields : Fields)

def nodeText? (name : String) : Option String :=
  (fields.node? name).bind child?

def listTexts? (name : String) : Option (List String) :=
  (list? fields name).bind (List.mapM child?)

/-- How the fields of a node of a kind are written, if none that is written is missing. -/
def writeFields? (options : Options) : String → Option String
  | "Identifier" => fields.string? "name"
  | "Number" => (fields.scalar? "value").bind numberText?
  | "Text" => (fields.string? "value").map (encode (Options.flag options "ascii"))
  | "Call" => do
    let name ← nodeText? child? fields "name"
    let args ← listTexts? child? fields "args"
    return name ++ "(" ++ ", ".intercalate args ++ ")"
  | "Expression" => (alternatives.findSome? fields.node?).bind child?
  | "Let" => do
    let name ← nodeText? child? fields "name"
    let value ← nodeText? child? fields "value"
    return "let " ++ name ++ " = " ++ value ++ ";"
  | "Script" => (listTexts? child? fields "statements").map "\n".intercalate
  | _ => none

end

/-- How a node is written, if no field that is written, of it or a node below, is missing. -/
def write? (t : Tree) (options : Options) (id : NodeId) : Option String :=
  match t.node? id with
  | none => none
  | some node =>
    writeFields? (fun child => if child.index < id.index then write? t options child else none)
      node.fields options node.kind
termination_by id.index

theorem mapM_some {f : NodeId → Option String} {g : NodeId → String} {ids : List NodeId}
    (h : ∀ id ∈ ids, f id = some (g id)) : ids.mapM f = some (ids.map g) := by
  induction ids with
  | nil => rfl
  | cons id ids ih =>
    rw [List.mapM_cons, h id (.head _), ih fun id hid => h id (.tail _ hid)]
    rfl

section
variable {t : Tree} {kind : String} {p : Production} {fields : Fields} {options : Options}
  {child? : NodeId → Option String} {child : NodeId → Options → String}
  (hchild : ∀ c ∈ fields.children, child? c = some (child c options))
include hchild

theorem nodeText?_eq (name : String) {id : NodeId} (h : fields.node? name = some id) :
    nodeText? child? fields name = some (fields.nodeText child options name) := by
  rw [nodeText?, Fields.nodeText, h]
  exact hchild id (Fields.node?_mem_children h)

theorem listTexts?_eq (name : String) {ids : List NodeId}
    (h : fields.get? name = some (.list ids)) :
    listTexts? child? fields name = some (fields.listTexts child options name) := by
  have hids : list? fields name = some ids := by rw [list?, h]
  have hlist : fields.list name = ids := by rw [Fields.list, h]
  rw [listTexts?, Fields.listTexts, hids, hlist]
  refine mapM_some fun id hid => hchild id ?_
  exact Fields.list_subset_children (hlist ▸ hid)

/-- Fields that have the shape of their kind are all there to be written. -/
theorem Fits.writeFields?_eq (hf : Fits t kind fields.entries)
    (hp : grammar.find? kind = some p) :
    writeFields? child? fields options kind = some (p.write child fields options) := by
  obtain ⟨entries, nodup⟩ := fields
  cases hf with
  | name hs =>
    cases hp
    rfl
  | number hv =>
    cases hp
    cases hv <;> rfl
  | text s =>
    cases hp
    rfl
  | call hname hargs =>
    cases hp
    simp only [writeFields?, nodeText?_eq hchild "name" rfl, listTexts?_eq hchild "args" rfl]
    rfl
  | expression hpart hid =>
    cases hp
    have hpart' := hchild _ (.head _)
    simp only [parts, List.mem_cons, Prod.mk.injEq, List.not_mem_nil, or_false] at hpart
    rcases hpart with ⟨rfl, rfl⟩ | ⟨rfl, rfl⟩ | ⟨rfl, rfl⟩ | ⟨rfl, rfl⟩ <;> exact hpart'
  | binding hname hvalue =>
    cases hp
    simp only [writeFields?, nodeText?_eq hchild "name" rfl, nodeText?_eq hchild "value" rfl]
    rfl
  | script hs =>
    cases hp
    simp only [writeFields?, listTexts?_eq hchild "statements" rfl]
    rfl

end

/-- In a tree whose nodes have the shapes of their kinds no node needs a default to be written. -/
theorem write?_eq {t : Tree} (ho : t.Owned) (hs : t.Shaped shapes) {id : NodeId}
    (hid : id.index < t.size) (options : Options) :
    write? t options id = some (grammar.write t id options) := by
  obtain ⟨n, hn⟩ : ∃ n, id.index = n := ⟨_, rfl⟩
  induction n using Nat.strongRecOn generalizing id with
  | ind n ih =>
    obtain ⟨node, hnode⟩ := Tree.exists_node? hid
    have hfits : Fits t node.kind node.fields.entries := hs id node hnode
    obtain ⟨p, hp⟩ := hfits.exists_find?
    rw [write?, Grammar.write]
    simp only [hnode, hp]
    refine hfits.writeFields?_eq (fun c hc => ?_) hp
    have hlt := ho.child_index_lt hnode hc
    rw [if_pos hlt, if_pos hlt]
    exact ih c.index (hn ▸ hlt) (Nat.lt_trans hlt hid) rfl

/-! ## Every session -/

/-- **Shapes.** In every session that requests lead to, without nodes made by hand, the fields of
every node are those of its kind, and no node is written with a default. -/
theorem well_shaped {s : Session} (h : s.Arises grammar) {id : NodeId} {node : Node}
    (hn : s.tree.node? id = some node) :
    Fits s.tree node.kind node.fields.entries ∧
      ∀ options, write? s.tree options id = some (grammar.write s.tree id options) := by
  have hs := h.shaped fitting
  exact ⟨hs id node hn, write?_eq h.owned.1 hs (Tree.index_lt_of_node? hn)⟩

/-- A call that is not closed leaves its first argument behind without a parent. -/
theorem well_shaped_unclosed :
    let s := (parse "let a = f(b, 1").2
    (parse "let a = f(b, 1").1.toOption = none ∧
      ∃ node, s.tree.node? ⟨4⟩ = some node ∧ (node.kind, node.parent) = ("Expression", none) ∧
        Fits s.tree node.kind node.fields.entries ∧
        ∀ options, write? s.tree options ⟨4⟩ = some (grammar.write s.tree ⟨4⟩ options) := by
  intro s
  have hnew : Session.withSettings "let a = f(b, 1" grammar {} =
      .ok (.ofText "let a = f(b, 1" grammar) := rfl
  have hs : s.Arises grammar := .request (.parse "Script" none) rfl (.start hnew)
  have hnode : (s.tree.node? ⟨4⟩).map (fun node => (node.kind, node.parent)) =
      some ("Expression", none) := by decide +kernel
  obtain ⟨node, hn, hkind⟩ := Option.map_eq_some_iff.1 hnode
  exact ⟨by decide +kernel, node, hn, hkind, well_shaped hs hn⟩

end Descent.Script
