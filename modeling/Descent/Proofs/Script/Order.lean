import Descent.Proofs.Program.Consumption
import Descent.Proofs.Script.Account

/-!
# Nodes stand in the order of the text

* `Tree.Ascends`: nodes that begin one after the other, from a place on and before another one;
* `Tree.Ordered`: a tree whose nodes begin somewhere, and their children from there on;
* `Session.KeepsOrder`: a success whose nodes begin one after the other between its ends.

A node begins where the cursor stood when its parse began, and the parse of any node but a script
ends further on. So what is parsed next begins further on, too. The call of an expression begins
where the name in front of its parenthesis did, and takes the place of this name.
-/

namespace Descent

namespace Tree

/-- Nodes begin one after the other, none in front of a place and all before another. -/
inductive Ascends (t : Tree) : Nat → List NodeId → Nat → Prop
  | nil {m n} : m ≤ n → Ascends t m [] n
  | cons {m id node start ids n} : t.node? id = some node → node.start = some start →
    m ≤ start → Ascends t (start + 1) ids n → Ascends t m (id :: ids) n

/-- Every node begins somewhere, and its children begin from there on, one after the other. -/
def Ordered (t : Tree) : Prop :=
  ∀ ⦃id node⦄, t.node? id = some node →
    ∃ start stop, node.start = some start ∧ t.Ascends start node.fields.children stop

variable {t t' : Tree} {ids ids' : List NodeId} {k m n : Nat}

namespace Ascends

theorem earlier (h : t.Ascends m ids n) (hle : k ≤ m) : t.Ascends k ids n := by
  cases h with
  | nil hmn => exact .nil (Nat.le_trans hle hmn)
  | cons hn hstart hm h => exact .cons hn hstart (Nat.le_trans hle hm) h

theorem append (h : t.Ascends m ids n) (h' : t.Ascends n ids' k) : t.Ascends m (ids ++ ids') k := by
  induction h with
  | nil hle => exact h'.earlier hle
  | cons hn hstart hle _ ih => exact .cons hn hstart hle (ih h')

theorem later (h : t.Ascends m ids n) (hle : n ≤ k) : t.Ascends m ids k := by
  rw [← List.append_nil ids]
  exact h.append (.nil hle)

theorem keeps (h : t.Ascends m ids n) (hk : t.Keeps t') : t'.Ascends m ids n := by
  induction h with
  | nil hle => exact .nil hle
  | cons hn hstart hle _ ih =>
    obtain ⟨parent, hn'⟩ := hk.node? hn
    exact .cons hn' hstart hle ih

/-- The places where the nodes begin. -/
theorem exists_starts (h : t.Ascends m ids n) :
    ∃ starts : List Nat,
      List.Forall₂ (fun id start => ∃ node, t.node? id = some node ∧ node.start = some start)
        ids starts ∧ (∀ start ∈ starts, m ≤ start) ∧ starts.Pairwise (· < ·) := by
  induction h with
  | nil => exact ⟨[], .nil, nofun, .nil⟩
  | @cons m id node start ids n hn hstart hle _ ih =>
    obtain ⟨starts, hall, hlt, hpairwise⟩ := ih
    refine ⟨start :: starts, .cons ⟨node, hn, hstart⟩ hall, ?_, .cons hlt hpairwise⟩
    rintro next (_ | ⟨_, hnext⟩)
    · exact hle
    · exact Nat.le_trans hle (Nat.le_of_lt (hlt next hnext))

end Ascends

theorem ordered_empty (kinds : List String) : (empty kinds).Ordered :=
  nofun

/-- A node may begin in front of nodes that ascend and take them as its children. -/
theorem Ordered.append (h : t.Ordered) {kind : String} {fields : Fields}
    (hchildren : t.Ascends m fields.children n) :
    (t.append kind (some m) fields).2.Ordered := by
  have hkeeps : t.Keeps (t.append kind (some m) fields).2 := keeps_append
  intro id node hn
  rw [node?_append] at hn
  split at hn
  · cases hn
    exact ⟨m, n, rfl, hchildren.keeps hkeeps⟩
  · obtain ⟨old, hold, rfl⟩ := Option.map_eq_some_iff.1 hn
    obtain ⟨start, stop, hstart, hascends⟩ := h hold
    refine ⟨start, stop, ?_, ?_⟩
    · split <;> exact hstart
    · split <;> exact hascends.keeps hkeeps

end Tree

/-! ## Successes -/

namespace Session

variable {s s' s'' : Session} {ids ids' : List NodeId}

/-- The nodes that a success hands on begin one after the other, from where it began to where it
ended, and the tree stays in order. -/
structure KeepsOrder (s : Session) (ids : List NodeId) (s' : Session) : Prop where
  keeps : s.tree.Keeps s'.tree
  ordered : s.tree.Ordered → s'.tree.Ordered
  ascends : s'.tree.Ascends s.cursor.offset ids s'.cursor.offset

namespace KeepsOrder

/-- No node is new. -/
theorem ofTree (htree : s'.tree = s.tree) (hle : s.cursor.offset ≤ s'.cursor.offset) :
    KeepsOrder s [] s' :=
  ⟨htree ▸ .refl _, fun h => htree ▸ h, .nil hle⟩

theorem refl (s : Session) : KeepsOrder s [] s :=
  ofTree rfl (Nat.le_refl _)

theorem trans (h : KeepsOrder s ids s') (h' : KeepsOrder s' ids' s'') :
    KeepsOrder s (ids ++ ids') s'' :=
  ⟨h.keeps.trans h'.keeps, fun ho => h'.ordered (h.ordered ho),
    (h.ascends.keeps h'.keeps).append h'.ascends⟩

theorem later {c : Cursor} (h : KeepsOrder s ids s') (hle : s'.cursor.offset ≤ c.offset) :
    KeepsOrder s ids { s' with cursor := c } :=
  ⟨h.keeps, h.ordered, h.ascends.later hle⟩

theorem widens : Widens KeepsOrder where
  earlier hle h := ⟨h.keeps, h.ordered, h.ascends.earlier hle⟩
  later hle h := h.later hle

end KeepsOrder
end Session

namespace Script

open Session (KeepsOrder)

variable {levels : Nat} {s s' : Session}

/-- Every parse but that of a script climbs when it succeeds with so many levels left. -/
def Rises (levels : Nat) : Prop :=
  ∀ ⦃kind options s id s'⦄, kind ≠ "Script" →
    grammar.handler levels (.parse kind options) s = (.ok id, s') → KeepsOrder s [id] s'

namespace Rises

variable {α : Type} {kind : String} {options : Options} {Q : α → Session → Prop} {s₀ : Session}
  {ids : List NodeId} (h : Rises levels) (hs : KeepsOrder s₀ ids s) (hkind : kind ≠ "Script")
include h hs hkind

theorem parse_bind {f : NodeId → Program α}
    (hf : ∀ id s', KeepsOrder s₀ (ids ++ [id]) s' → (f id).Ensures (grammar.handler levels) s' Q) :
    (Program.parse kind options >>= f).Ensures (grammar.handler levels) s Q :=
  .request_bind fun id s' hrun => hf id s' (hs.trans (h hkind hrun))

theorem series_bind {f : List NodeId → Program α}
    (hf : ∀ found s', KeepsOrder s₀ (ids ++ found) s' →
      (f found).Ensures (grammar.handler levels) s' Q) :
    (Program.series kind options >>= f).Ensures (grammar.handler levels) s Q :=
  .request_bind fun found s' hrun => hf found s' <| hs.trans <|
    Grammar.series_found KeepsOrder.widens .trans (h hkind) .refl hrun

theorem commaList_bind {f : List NodeId → Program α}
    (hf : ∀ found s', KeepsOrder s₀ (ids ++ found) s' →
      (f found).Ensures (grammar.handler levels) s' Q) :
    (Program.commaList kind options >>= f).Ensures (grammar.handler levels) s Q :=
  .request_bind fun found s' hrun => hf found s' <| hs.trans <|
    Grammar.commaList_found KeepsOrder.widens .trans (h hkind) hrun

end Rises

/-! ## Productions -/

/-- The program of a production hands on nodes that begin one after the other. -/
def Lifts (levels : Nat) (p : Production) : Prop :=
  ∀ options s, (p.body options).Ensures (grammar.handler levels) s fun fields s' =>
    KeepsOrder s fields.children s'

theorem lifts_identifier : Lifts levels identifier := by
  intro options s
  exact .forward_bind rfl fun name c hle => .done ((KeepsOrder.refl s).later hle)

theorem lifts_number : Lifts levels number := by
  intro options s
  refine .forward_bind rfl fun literal c hle => ?_
  cases numberValue? literal.toList with
  | none => exact .refuse _
  | some value => exact .done ((KeepsOrder.refl s).later hle)

theorem lifts_text : Lifts levels text := by
  intro options s
  refine .forward_bind rfl fun _ c hle => .state_bind (.bind fun value s' hrun => .done ?_)
  have htree := tree_readItems _ "" hrun
  have honward := Program.Ensures.onward locals (local_readItems _ "") hrun
  exact .ofTree htree (Nat.le_trans hle honward)

section
variable (h : Rises levels)
include h

theorem lifts_call : Lifts levels call := by
  intro options s
  refine h.parse_bind (.refl s) (by decide) fun name s₁ h₁ => .forward_bind rfl fun _ c₂ h₂ =>
    .forward_bind rfl fun _ c₃ h₃ => .forward_bind rfl fun _ c₄ h₄ => .sees_bind fun closes => ?_
  have hopened : KeepsOrder s [name] { s₁ with cursor := c₄ } := ((h₁.later h₂).later h₃).later h₄
  cases closes with
  | true =>
    exact .forward_bind rfl fun _ c₅ h₅ => .forward_bind rfl fun _ c₆ h₆ =>
      .done ((hopened.later h₅).later h₆)
  | false =>
    refine h.commaList_bind hopened (by decide) fun args s₅ h₅ => .forward_bind rfl fun _ c₆ h₆ =>
      .forward_bind rfl fun _ c₇ h₇ => .done ?_
    have hchildren : (Fields.ofList [("name", .node name), ("args", .list args)]).children =
        [name] ++ args := congrArg (name :: ·) (List.append_nil args)
    rw [hchildren]
    exact (h₅.later h₆).later h₇

theorem lifts_expression : Lifts levels expression := by
  intro options s
  refine .seesProduction_bind fun sees => ?_
  cases sees
  case true => exact h.parse_bind (.refl s) (by decide) fun id s₁ h₁ => .done h₁
  refine .seesProduction_bind fun sees => ?_
  cases sees
  case true => exact h.parse_bind (.refl s) (by decide) fun id s₁ h₁ => .done h₁
  refine .seesProduction_bind fun sees => ?_
  cases sees
  case false => exact .refuse _
  refine .request_bind fun name s₁ hname => .sees_bind fun opens => ?_
  have h₁ : KeepsOrder s [name] s₁ := h (by decide) hname
  cases opens
  case false => exact .done h₁
  refine .rewind_bind fun node c hnode hstart => .request_bind fun id s₂ hcall => .done ?_
  have h₂ : KeepsOrder { s₁ with cursor := c } [id] s₂ := h (by decide) hcall
  -- The call takes the place of the name, since it begins where that did.
  obtain ⟨node', hnode', -, hstart'⟩ := Grammar.parse_start hname
  obtain rfl : node = node' := Option.some.inj (hnode.symm.trans hnode')
  have hback : s.cursor.offset = c.offset := Option.some.inj (hstart'.symm.trans hstart)
  exact ⟨h₁.keeps.trans h₂.keeps, fun ho => h₂.ordered (h₁.ordered ho), hback ▸ h₂.ascends⟩

theorem lifts_letBinding : Lifts levels letBinding := by
  intro options s
  refine .forward_bind rfl fun _ c₁ h₁ => ?_
  refine h.parse_bind ((KeepsOrder.refl s).later h₁) (by decide) fun name s₂ h₂ =>
    .forward_bind rfl fun _ c₃ h₃ => .forward_bind rfl fun _ c₄ h₄ =>
    .forward_bind rfl fun _ c₅ h₅ => ?_
  refine h.parse_bind (((h₂.later h₃).later h₄).later h₅) (by decide) fun value s₆ h₆ =>
    .forward_bind rfl fun _ c₇ h₇ => .forward_bind rfl fun _ c₈ h₈ => .done ?_
  exact (h₆.later h₇).later h₈

theorem lifts_script : Lifts levels script := by
  intro options s
  refine h.series_bind (.refl s) (by decide) fun statements s₁ h₁ =>
    .forward_bind rfl fun _ c₂ h₂ => .state_bind ?_
  split
  · have hchildren : (Fields.ofList [("statements", .list statements)]).children = statements :=
      List.append_nil statements
    refine .done ?_
    rw [hchildren]
    exact h₁.later h₂
  · exact .refuse _

end

theorem lifts (h : Rises levels) : ∀ p ∈ grammar.productions, Lifts levels p := by
  simp only [grammar, List.forall_mem_cons]
  exact ⟨lifts_identifier, lifts_number, lifts_text, lifts_call h, lifts_expression h,
    lifts_letBinding h, lifts_script h, List.forall_mem_nil _⟩

/-! ## Parses -/

/-- What parses one level deeper do to the order of the tree, parses do. -/
theorem ordered_of_below (hbelow : ∀ below, levels = below + 1 → Rises below) {kind : String}
    {options : Options} {id : NodeId}
    (hrun : grammar.handler levels (.parse kind options) s = (.ok id, s')) :
    s.tree.Keeps s'.tree ∧ (s.tree.Ordered → s'.tree.Ordered) := by
  obtain ⟨p, below, fields, after, hp, hlevels, hbody, -, -, htree⟩ := Grammar.parse_ok hrun
  have horder := lifts (hbelow below hlevels) p (Grammar.mem_of_find hp) options _ hbody
  rw [htree]
  exact ⟨horder.keeps.trans Tree.keeps_append,
    fun ho => (horder.ordered ho).append horder.ascends⟩

theorem rises_of_below (hbelow : ∀ below, levels = below + 1 → Rises below) : Rises levels := by
  intro kind options s id s' hscript hrun
  obtain ⟨node, hnode, -, hstart⟩ := Grammar.parse_start hrun
  obtain ⟨hkeeps, hordered⟩ := ordered_of_below hbelow hrun
  exact ⟨hkeeps, hordered,
    .cons hnode hstart (Nat.le_refl _) (.nil (consumes (Grammar.parse_kind hrun) hscript hrun))⟩

theorem rises (levels : Nat) : Rises levels := by
  induction levels with
  | zero => exact rises_of_below nofun
  | succ levels ih =>
    refine rises_of_below ?_
    rintro _ ⟨⟩
    exact ih

/-- **Nodes stand in the order of the text.** When a text parses as a script, every node of its tree
begins at an offset between two of its characters or at one of its ends. No child begins in front
of its node, and each begins behind the one before it. -/
theorem parse_ascends {text : String} {root : NodeId} {s : Session}
    (h : parse text = (.ok root, s)) :
    (∃ node, s.tree.node? root = some node ∧ node.kind = "Script") ∧
    ∀ id node, s.tree.node? id = some node → ∃ start, node.start = some start ∧
      start ≤ text.utf8ByteSize ∧ Text.Boundary text.toList start ∧
      ∃ starts : List Nat,
        List.Forall₂ (fun child n => ∃ below, s.tree.node? child = some below ∧
          below.start = some n) node.fields.children starts ∧
        (∀ n ∈ starts, start ≤ n) ∧ starts.Pairwise (· < ·) := by
  have hparse : grammar.handler 1000 (.parse "Script" none) (.ofText text grammar) =
      (.ok root, s) := h
  have hordered : s.tree.Ordered :=
    (ordered_of_below (fun below _ => rises below) hparse).2 (Tree.ordered_empty _)
  obtain ⟨script, hscript, hkind, -⟩ := Grammar.parse_start hparse
  refine ⟨⟨script, hscript, hkind⟩, fun id node hn => ?_⟩
  obtain ⟨start, stop, hstart, hascends⟩ := hordered hn
  obtain ⟨l, r, hcut, hsize, -⟩ := (retains_of_parse h).tree.replays hn
  obtain rfl : Text.size l = start := Option.some.inj (hsize.symm.trans hstart)
  refine ⟨_, hstart, ?_, ⟨l, r, hcut, rfl⟩, hascends.exists_starts⟩
  rw [← Text.size_toList, ← hcut, Text.size_append]
  exact Nat.le_add_right ..

/-- A call of two arguments, the first of which has a character of two bytes. Its name begins where
it does. -/
theorem parse_ascends_call :
    let s := (parse "let a = f(\"é\", g(x));").2
    ∃ root call, parse "let a = f(\"é\", g(x));" = (.ok root, s) ∧
      s.tree.node? ⟨11⟩ = some call ∧
      (call.kind, call.start, call.fields.children) = ("Call", some 8, [⟨2⟩, ⟨4⟩, ⟨10⟩]) ∧
      (call.fields.children.map fun child => (s.tree.node? child).bind (·.start)) =
        [some 8, some 10, some 16] ∧
      ∃ starts : List Nat,
        List.Forall₂ (fun child n => ∃ below, s.tree.node? child = some below ∧
          below.start = some n) call.fields.children starts ∧
        (∀ n ∈ starts, 8 ≤ n) ∧ starts.Pairwise (· < ·) := by
  intro s
  have hok : (parse "let a = f(\"é\", g(x));").1.toOption.isSome := by decide +kernel
  have hfields : (s.tree.node? ⟨11⟩).map
      (fun call => (call.kind, call.start, call.fields.children)) =
        some ("Call", some 8, [⟨2⟩, ⟨4⟩, ⟨10⟩]) := by decide +kernel
  obtain ⟨call, hcall, hfields⟩ := Option.map_eq_some_iff.1 hfields
  obtain ⟨root, hroot⟩ := Option.isSome_iff_exists.1 hok
  have hparse : parse "let a = f(\"é\", g(x));" = (.ok root, s) := by
    refine Prod.ext ?_ rfl
    rcases hanswer : (parse "let a = f(\"é\", g(x));").1 with e | id <;>
      rw [hanswer] at hroot <;> cases hroot
    rfl
  obtain ⟨start, hstart, -, -, hstarts⟩ := (parse_ascends hparse).2 ⟨11⟩ call hcall
  obtain ⟨-, hfirst, hchildren⟩ : call.kind = "Call" ∧ call.start = some 8 ∧
      call.fields.children = [⟨2⟩, ⟨4⟩, ⟨10⟩] := by simpa using hfields
  obtain rfl : start = 8 := Option.some.inj (hstart.symm.trans hfirst)
  refine ⟨root, call, hparse, hcall, hfields, ?_, hstarts⟩
  rw [hchildren]
  decide +kernel

end Script
end Descent
