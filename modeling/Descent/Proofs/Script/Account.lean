import Mathlib.Algebra.Order.Group.Multiset
import Mathlib.Data.Set.Function
import Mathlib.Tactic.Abel
import Descent.Proofs.Script.Replay
import Descent.Proofs.Script.Shape
import Descent.Proofs.Session.Success
import Descent.Proofs.Tree.Loose

/-!
# No node is lost

* `Echoes`: a name that begins where a call and the name of the call do;
* `Accounts`: what a success adds to the nodes without a parent and to the calls;
* `WholeTree`: the tree of a script.

A node that is parsed is handed on until another one takes it as a child, with one exception: the
name in front of a parenthesis is parsed twice, first alone and then for the call, and the first of
the two is left behind. So a success adds what it hands on to the nodes without a parent, and a name
for each call that some expression has taken. At the end only the root is handed on, and each call
has been taken.
-/

namespace Descent

theorem Tree.ParsedAt.hasKind {t : Tree} {kind : String} {id : NodeId} {start : Nat}
    (h : t.ParsedAt kind id start) : t.HasKind kind id :=
  let ⟨node, hn, hkind, _⟩ := h
  ⟨node, hn, hkind⟩

/-- A node is of one kind only. -/
theorem Tree.HasKind.unique {t : Tree} {kind kind' : String} {id : NodeId}
    (h : t.HasKind kind id) (h' : t.HasKind kind' id) : kind = kind' := by
  obtain ⟨node, hn, rfl⟩ := h
  obtain ⟨node', hn', rfl⟩ := h'
  exact congrArg Node.kind (Option.some.inj (hn.symm.trans hn'))

namespace Script

variable {t t' t'' : Tree} {id e c name : NodeId} {start : Nat}

/-! ## Names in front of calls -/

/-- A call that begins at an offset, as its name does. -/
def CallAt (t : Tree) (call name : NodeId) (start : Nat) : Prop :=
  ∃ node, t.node? call = some node ∧ node.kind = "Call" ∧ node.start = some start ∧
    node.fields.node? "name" = some name ∧ t.ParsedAt "Identifier" name start

/-- A name that begins where a call and the name of this call do. -/
def Echoes (t : Tree) (echo call : NodeId) : Prop :=
  ∃ start name, t.ParsedAt "Identifier" echo start ∧ CallAt t call name start

theorem CallAt.keeps (hk : t.Keeps t') (h : CallAt t c name start) : CallAt t' c name start := by
  obtain ⟨node, hn, hkind, hstart, hname, hparsed⟩ := h
  obtain ⟨parent, hn'⟩ := hk.node? hn
  exact ⟨_, hn', hkind, hstart, hname, hk.parsedAt hparsed⟩

theorem Echoes.keeps (hk : t.Keeps t') (h : Echoes t e c) : Echoes t' e c :=
  let ⟨start, name, hecho, hcall⟩ := h
  ⟨start, name, hk.parsedAt hecho, hcall.keeps hk⟩

/-! ## Accounts -/

/-- What a success adds to a tree: the nodes that are handed on, of which `calls` are calls, and for
each of `echoes` a name without a parent and a call. -/
structure Adds (t t' : Tree) (echoes : Multiset (NodeId × NodeId)) (found calls : Multiset NodeId) :
    Prop where
  keeps : t.Keeps t'
  loose_eq : t'.loose = t.loose + echoes.map Prod.fst + found
  calls_eq : t'.ofKind "Call" = t.ofKind "Call" + echoes.map Prod.snd + calls
  echoes : ∀ x ∈ echoes, Echoes t' x.1 x.2

/-- A success hands on the nodes in `found`, of which `calls` are calls, and leaves no other behind
but names in front of calls. -/
def Accounts (t : Tree) (found calls : Multiset NodeId) (t' : Tree) : Prop :=
  ∃ echoes, Adds t t' echoes found calls

namespace Accounts

variable {found found' calls calls' : Multiset NodeId}

theorem keeps (h : Accounts t found calls t') : t.Keeps t' :=
  let ⟨_, h⟩ := h
  h.keeps

theorem refl (t : Tree) : Accounts t 0 0 t :=
  ⟨0, .refl t, by simp, by simp, by simp⟩

theorem trans (h : Accounts t found calls t') (h' : Accounts t' found' calls' t'') :
    Accounts t (found + found') (calls + calls') t'' := by
  obtain ⟨echoes, h⟩ := h
  obtain ⟨echoes', h'⟩ := h'
  refine ⟨echoes + echoes', h.keeps.trans h'.keeps, ?_, ?_, fun x hx => ?_⟩
  · rw [h'.loose_eq, h.loose_eq, Multiset.map_add]
    abel
  · rw [h'.calls_eq, h.calls_eq, Multiset.map_add]
    abel
  · rcases Multiset.mem_add.1 hx with hx | hx
    · exact (h.echoes x hx).keeps h'.keeps
    · exact h'.echoes x hx

/-- Two stretches, neither of which hands on a call. -/
theorem both {ids ids' : List NodeId} (h : Accounts t ids 0 t') (h' : Accounts t' ids' 0 t'') :
    Accounts t ↑(ids ++ ids') 0 t'' := by
  rw [← Multiset.coe_add]
  exact h.trans h'

/-- A name that is not handed on after all is left behind for a call that is. -/
theorem echo (h : Accounts t ({e} + found) ({c} + calls) t') (he : Echoes t' e c) :
    Accounts t found calls t' := by
  obtain ⟨echoes, h⟩ := h
  refine ⟨echoes + {(e, c)}, h.keeps, ?_, ?_, fun x hx => ?_⟩
  · rw [h.loose_eq, Multiset.map_add, Multiset.map_singleton]
    abel
  · rw [h.calls_eq, Multiset.map_add, Multiset.map_singleton]
    abel
  · rcases Multiset.mem_add.1 hx with hx | hx
    · exact h.echoes x hx
    · obtain rfl := Multiset.mem_singleton.1 hx
      exact he

/-- A node whose children are all that was handed on is handed on itself. -/
theorem append {kind : String} {start : Option Nat} {fields : Fields}
    (h : Accounts t fields.children 0 t') :
    Accounts t {⟨t'.size⟩} (if kind = "Call" then {⟨t'.size⟩} else 0)
      (t'.append kind start fields).2 := by
  obtain ⟨echoes, h⟩ := h
  have hkeeps : t'.Keeps (t'.append kind start fields).2 := Tree.keeps_append
  refine ⟨echoes, h.keeps.trans hkeeps, Tree.loose_append h.loose_eq, ?_,
    fun x hx => (h.echoes x hx).keeps hkeeps⟩
  rw [Tree.ofKind_append, h.calls_eq, Multiset.add_zero]

end Accounts

/-! ## Parses -/

/-- What the parse of a node does to the tree. -/
structure Made (t : Tree) (kind : String) (start : Nat) (id : NodeId) (t' : Tree) : Prop where
  accounts : Accounts t {id} (if kind = "Call" then {id} else 0) t'
  parsedAt : t'.ParsedAt kind id start
  last : id.index + 1 = t'.size
  call : kind = "Call" → ∃ name, CallAt t' id name start

/-- Every parse that succeeds with so many levels left does this. -/
def Makes (levels : Nat) : Prop :=
  ∀ ⦃kind options s id s'⦄, grammar.handler levels (.parse kind options) s = (.ok id, s') →
    Made s.tree kind s.cursor.offset id s'.tree

/-- The parse of a node that is no call. -/
theorem Made.other {kind : String} (h : Made t kind start id t') (hkind : kind ≠ "Call") :
    Accounts t [id] 0 t' := by
  have haccounts := h.accounts
  rwa [if_neg hkind] at haccounts

namespace Makes

variable {levels : Nat} {α : Type} {kind : String} {options : Options} {s : Session}
  {Q : α → Session → Prop} (h : Makes levels)
include h

theorem parse_bind {f : NodeId → Program α}
    (hf : ∀ id s', Made s.tree kind s.cursor.offset id s'.tree →
      (f id).Ensures (grammar.handler levels) s' Q) :
    (Program.parse kind options >>= f).Ensures (grammar.handler levels) s Q :=
  .request_bind fun id s' hrun => hf id s' (h hrun)

theorem series_bind (hkind : kind ≠ "Call") {f : List NodeId → Program α}
    (hf : ∀ (ids : List NodeId) s', Accounts s.tree ids 0 s'.tree →
      (f ids).Ensures (grammar.handler levels) s' Q) :
    (Program.series kind options >>= f).Ensures (grammar.handler levels) s Q :=
  .request_bind fun ids s' hrun => hf ids s' <|
    Grammar.series_found (.ofTree fun t ids t' => Accounts t ids 0 t') .both
      (fun hrun => (h hrun).other hkind) (fun _ => .refl _) hrun

theorem commaList_bind (hkind : kind ≠ "Call") {f : List NodeId → Program α}
    (hf : ∀ (ids : List NodeId) s', Accounts s.tree ids 0 s'.tree →
      (f ids).Ensures (grammar.handler levels) s' Q) :
    (Program.commaList kind options >>= f).Ensures (grammar.handler levels) s Q :=
  .request_bind fun ids s' hrun => hf ids s' <|
    Grammar.commaList_found (.ofTree fun t ids t' => Accounts t ids 0 t') .both
      (fun hrun => (h hrun).other hkind) hrun

end Makes

/-! ## Productions -/

/-- What the program of a production hands on is what the fields that it gives refer to. -/
def Books (levels : Nat) (p : Production) : Prop :=
  ∀ options s, (p.body options).Ensures (grammar.handler levels) s fun fields s' =>
    Accounts s.tree fields.children 0 s'.tree

section
variable {levels : Nat} {s : Session}

theorem tree_readEscape (escapes : List (String × Char)) :
    (readEscape escapes).Ensures (grammar.handler levels) s fun _ s' => s'.tree = s.tree := by
  induction escapes generalizing s with
  | nil => exact .done rfl
  | cons escape rest ih =>
    refine .act_bind fun taken c => ?_
    cases taken with
    | none => exact ih
    | some _ => exact .done rfl

theorem tree_readItem :
    readItem.Ensures (grammar.handler levels) s fun _ s' => s'.tree = s.tree := by
  refine .act_bind fun plain c => ?_
  cases plain with
  | some plain => exact .done rfl
  | none =>
  refine .act_bind fun quote c => ?_
  cases quote with
  | some _ => exact .done rfl
  | none =>
  refine .act_bind fun braced c => ?_
  cases braced with
  | some _ => exact .act_bind fun hex c => .act_bind fun _ c => .act_bind fun _ c => .done rfl
  | none =>
  refine .bind ((tree_readEscape escapes).mono fun escaped s' htree => ?_)
  cases escaped with
  | some _ => exact .done htree
  | none =>
  refine .state_bind ?_
  split
  · exact .refuse _
  · exact .refuse _

theorem tree_readItems (fuel : Nat) (value : String) :
    (readItems fuel value).Ensures (grammar.handler levels) s fun _ s' => s'.tree = s.tree := by
  induction fuel generalizing s value with
  | zero => exact .refuse _
  | succ fuel ih =>
    refine .bind (tree_readItem.mono fun item s' htree => ?_)
    cases item with
    | none => exact .done htree
    | some item => exact (ih _).mono fun _ _ htree' => htree'.trans htree

theorem books_identifier : Books levels identifier := by
  intro options s
  exact .act_bind fun name c => .done (.refl _)

theorem books_number : Books levels number := by
  intro options s
  refine .act_bind fun literal c => ?_
  cases numberValue? literal.toList with
  | none => exact .refuse _
  | some value => exact .done (.refl _)

theorem books_text : Books levels text := by
  intro options s
  refine .act_bind fun _ c => .state_bind (.bind ?_)
  exact (tree_readItems _ _).mono fun value s' htree => .done (htree ▸ .refl _)

variable (h : Makes levels)
include h

theorem books_call : Books levels call := by
  intro options s
  refine h.parse_bind fun name s₁ hname => .act_bind fun _ c₂ => .act_bind fun _ c₃ =>
    .act_bind fun _ c₄ => .sees_bind fun closes => ?_
  have hname := hname.other (by decide)
  cases closes
  · refine h.commaList_bind (by decide) fun args s₅ hargs => .act_bind fun _ c₆ =>
      .act_bind fun _ c₇ => .done ?_
    have hchildren : (Fields.ofList [("name", .node name), ("args", .list args)]).children =
        [name] ++ args := congrArg (name :: ·) (List.append_nil args)
    rw [hchildren]
    exact hname.both hargs
  · exact .act_bind fun _ c₅ => .act_bind fun _ c₆ => .done hname

/-- A call begins as its name does. -/
theorem call_name (options : Options) (s : Session) :
    (call.body options).Ensures (grammar.handler levels) s fun fields s' =>
      ∃ name, fields.node? "name" = some name ∧
        s'.tree.ParsedAt "Identifier" name s.cursor.offset := by
  refine h.parse_bind fun name s₁ hname => .act_bind fun _ c₂ => .act_bind fun _ c₃ =>
    .act_bind fun _ c₄ => .sees_bind fun closes => ?_
  cases closes
  · refine h.commaList_bind (by decide) fun args s₅ hargs => .act_bind fun _ c₆ =>
      .act_bind fun _ c₇ => .done ⟨name, rfl, ?_⟩
    exact hargs.keeps.parsedAt hname.parsedAt
  · exact .act_bind fun _ c₅ => .act_bind fun _ c₆ => .done ⟨name, rfl, hname.parsedAt⟩

theorem books_expression : Books levels expression := by
  intro options s
  refine .seesProduction_bind fun sees => ?_
  cases sees
  case true => exact h.parse_bind fun id s₁ hid => .done (hid.other (by decide))
  refine .seesProduction_bind fun sees => ?_
  cases sees
  case true => exact h.parse_bind fun id s₁ hid => .done (hid.other (by decide))
  refine .seesProduction_bind fun sees => ?_
  cases sees
  case false => exact .refuse _
  refine h.parse_bind fun name s₁ hname => .sees_bind fun opens => ?_
  cases opens
  case false => exact .done (hname.other (by decide))
  refine .rewind_bind fun node c hnode hstart => h.parse_bind fun id s₂ hid => .done ?_
  -- The call begins where the session has gone back to, which is where the name begins.
  obtain ⟨node', hnode', hkind, hstart'⟩ := hname.parsedAt
  obtain rfl : node = node' := Option.some.inj (hnode.symm.trans hnode')
  have hoffset : c.offset = s.cursor.offset := Option.some.inj (hstart.symm.trans hstart')
  obtain ⟨callName, hcall⟩ := hid.call rfl
  have hecho : Echoes s₂.tree name id :=
    ⟨_, callName, hid.accounts.keeps.parsedAt hname.parsedAt, hoffset ▸ hcall⟩
  have hboth : Accounts s.tree ({name} + {id}) ({id} + 0) s₂.tree :=
    (hname.other (by decide)).trans hid.accounts
  exact hboth.echo hecho

theorem books_letBinding : Books levels letBinding := by
  intro options s
  refine .act_bind fun _ c₁ => h.parse_bind fun name s₁ hname => .act_bind fun _ c₂ =>
    .act_bind fun _ c₃ => .act_bind fun _ c₄ => h.parse_bind fun value s₂ hvalue =>
    .act_bind fun _ c₅ => .act_bind fun _ c₆ => .done ?_
  exact (hname.other (by decide)).both (hvalue.other (by decide))

theorem books_script : Books levels script := by
  intro options s
  refine h.series_bind (by decide) fun statements s₁ hs => .act_bind fun _ c => .state_bind ?_
  split
  · have hchildren : (Fields.ofList [("statements", .list statements)]).children = statements :=
      List.append_nil statements
    refine .done ?_
    rw [hchildren]
    exact hs
  · exact .refuse _

end

/-! ## Every parse -/

theorem books {levels : Nat} (h : Makes levels) : ∀ p ∈ grammar.productions, Books levels p := by
  simp only [grammar, List.forall_mem_cons]
  exact ⟨books_identifier, books_number, books_text, books_call h, books_expression h,
    books_letBinding h, books_script h, List.forall_mem_nil _⟩

/-- What parses one level deeper do to the tree, parses do. -/
theorem makes_of_below {levels : Nat} (hbelow : ∀ below, levels = below + 1 → Makes below) :
    Makes levels := by
  intro kind options s id s' hrun
  obtain ⟨p, below, fields, after, hp, hlevels, hbody, rfl, -, htree⟩ := Grammar.parse_ok hrun
  have hmakes := hbelow below hlevels
  have haccounts := books hmakes p (Grammar.mem_of_find hp) options _ hbody
  obtain rfl := Grammar.name_eq_of_find hp
  rw [htree]
  refine ⟨haccounts.append, ⟨_, Tree.node?_append_new, rfl, rfl⟩, Tree.size_append.symm,
    fun hcall => ?_⟩
  have hfind : grammar.find "Call" = .ok call := rfl
  rw [hcall, hfind] at hp
  cases hp
  obtain ⟨name, hname, hparsed⟩ := call_name hmakes options _ hbody
  exact ⟨name, _, Tree.node?_append_new, rfl, rfl, hname, Tree.keeps_append.parsedAt hparsed⟩

theorem makes (levels : Nat) : Makes levels := by
  induction levels with
  | zero => exact makes_of_below nofun
  | succ levels ih =>
    refine makes_of_below ?_
    rintro _ ⟨⟩
    exact ih

/-! ## Names -/

/-- Two nodes of a kind that begin at the same offset show the same. -/
theorem Faithful.json_eq {content : List Char} (h : Faithful content t) {kind : String}
    {a b : NodeId} (ha : t.ParsedAt kind a start) (hb : t.ParsedAt kind b start) :
    t.json a = t.json b := by
  obtain ⟨node, hn, rfl, hstart⟩ := ha
  obtain ⟨node', hn', hkind, hstart'⟩ := hb
  obtain ⟨l, cs, hcut, hsize, hreplay⟩ := h.replays hn
  obtain ⟨l', cs', hcut', hsize', hreplay'⟩ := h.replays hn'
  have hl : Text.size l = Text.size l' :=
    Option.some.inj ((hsize.symm.trans hstart).trans (hstart'.symm.trans hsize'))
  obtain ⟨rfl, rfl⟩ := Text.append_inj_of_size (hcut.trans hcut'.symm) hl
  -- Both are what a new session over the rest of the text parses.
  have hready := (retains_ofText (String.ofList cs)).ready
  have hahead : (Session.ofText (String.ofList cs) grammar).cursor.ahead = cs :=
    String.toList_ofList
  obtain ⟨id, s, rest, source, hparse, hparsed⟩ := hreplay hready hahead none
  obtain ⟨id', s', rest', source', hparse', hparsed'⟩ := hreplay' hready hahead none
  rw [hkind, hparse] at hparse'
  cases hparse'
  exact hparsed.shows.json_eq.symm.trans hparsed'.shows.json_eq

/-- A name has no children, and its text is what it shows. -/
theorem exists_text (ho : t.Owned) (hs : t.Shaped shapes) {node : Node}
    (hn : t.node? id = some node) (hkind : node.kind = "Identifier") :
    node.fields.children = [] ∧ ∃ text, node.fields.string? "name" = some text ∧
      t.json id = .object [("name", .string text)] := by
  have hfits : Fits t node.kind node.fields.entries := hs id node hn
  have hjson := ho.json_eq hn
  obtain ⟨kind, start, ⟨entries, nodup⟩, parent⟩ := node
  change kind = "Identifier" at hkind
  cases hfits with
  | name hname => exact ⟨rfl, _, rfl, hjson⟩
  | _ => exact absurd hkind (by decide)

/-- A name and a call begin at the same offset, and the name of the call is the same name. -/
def NamesCall (t : Tree) (e c : NodeId) : Prop :=
  ∃ echo call name callName start text, t.node? e = some echo ∧ t.node? c = some call ∧
    call.fields.node? "name" = some name ∧ t.node? name = some callName ∧
    echo.start = some start ∧ call.start = some start ∧
    echo.fields.string? "name" = some text ∧ callName.fields.string? "name" = some text

theorem Echoes.namesCall {content : List Char} (hf : Faithful content t) (hs : t.Shaped shapes)
    (h : Echoes t e c) : NamesCall t e c := by
  obtain ⟨start, name, hecho, call, hcall, -, hstart, hname, hparsed⟩ := h
  have hjson := hf.json_eq hecho hparsed
  obtain ⟨echo, hechoNode, hkind, hechoStart⟩ := hecho
  obtain ⟨callName, hcallName, hkind', -⟩ := hparsed
  obtain ⟨-, text, htext, hshow⟩ := exists_text hf.owned hs hechoNode hkind
  obtain ⟨-, text', htext', hshow'⟩ := exists_text hf.owned hs hcallName hkind'
  rw [hshow, hshow'] at hjson
  cases hjson
  exact ⟨echo, call, name, callName, start, text, hechoNode, hcall, hname, hcallName, hechoStart,
    hstart, htext, htext'⟩

/-! ## The tree of a script -/

/-- Pairs in which nothing occurs twice on either side match the one side with the other. -/
theorem exists_bijOn {α β : Type} [Nonempty β] {pairs : Multiset (α × β)}
    (hfst : (pairs.map Prod.fst).Nodup) (hsnd : (pairs.map Prod.snd).Nodup) :
    ∃ f : α → β, (∀ x ∈ pairs, f x.1 = x.2) ∧
      Set.BijOn f {a | a ∈ pairs.map Prod.fst} {b | b ∈ pairs.map Prod.snd} := by
  classical
  let f (a : α) : β := if h : ∃ b, (a, b) ∈ pairs then h.choose else Classical.arbitrary β
  have hf : ∀ x ∈ pairs, f x.1 = x.2 := by
    rintro ⟨a, b⟩ hx
    have hex : ∃ b, (a, b) ∈ pairs := ⟨b, hx⟩
    have hpair := Multiset.inj_on_of_nodup_map hfst _ hex.choose_spec _ hx rfl
    exact (dif_pos hex).trans (congrArg Prod.snd hpair)
  refine ⟨f, hf, ?_, ?_, ?_⟩
  · intro a ha
    obtain ⟨x, hx, rfl⟩ := Multiset.mem_map.1 ha
    exact Multiset.mem_map.2 ⟨x, hx, (hf x hx).symm⟩
  · intro a ha b hb heq
    obtain ⟨x, hx, rfl⟩ := Multiset.mem_map.1 ha
    obtain ⟨y, hy, rfl⟩ := Multiset.mem_map.1 hb
    rw [hf x hx, hf y hy] at heq
    exact congrArg Prod.fst (Multiset.inj_on_of_nodup_map hsnd x hx y hy heq)
  · intro b hb
    obtain ⟨x, hx, rfl⟩ := Multiset.mem_map.1 hb
    exact ⟨x.1, Multiset.mem_map.2 ⟨x, hx, rfl⟩, hf x hx⟩

/-- The tree of a script: the nodes without a parent are the root and names, and each of these is
there for a call, and each call has one. -/
structure WholeTree (t : Tree) (root : NodeId) (echoes : Multiset (NodeId × NodeId)) : Prop where
  owned : t.Owned
  shaped : t.Shaped shapes
  script : t.HasKind "Script" root
  last : root.index + 1 = t.size
  loose_eq : t.loose = echoes.map Prod.fst + {root}
  calls_eq : t.ofKind "Call" = echoes.map Prod.snd
  names : ∀ x ∈ echoes, t.HasKind "Identifier" x.1 ∧ NamesCall t x.1 x.2

theorem exists_wholeTree {text : String} {root : NodeId} {s : Session}
    (h : parse text = (.ok root, s)) : ∃ echoes, WholeTree s.tree root echoes := by
  have hnew : Session.withSettings text grammar {} = .ok (.ofText text grammar) := rfl
  have harises := Session.Arises.request (.parse "Script" none) rfl (.start hnew)
  have hhandle : Session.handle grammar (.parse "Script" none) (.ofText text grammar) =
      (.ok root, s) := h
  rw [hhandle] at harises
  have hparse : grammar.handler 1000 (.parse "Script" none) (.ofText text grammar) =
      (.ok root, s) := h
  have hfaithful := (retains_of_parse h).tree
  have hshaped := harises.shaped fitting
  have hmade : Made (.empty grammar.kinds) "Script" 0 root s.tree := makes 1000 hparse
  obtain ⟨echoes, hadds⟩ := hmade.accounts
  refine ⟨echoes, hfaithful.owned, hshaped, hmade.parsedAt.hasKind, hmade.last, ?_, ?_,
    fun x hx => ?_⟩
  · rw [hadds.loose_eq, Tree.loose_empty, zero_add]
  · rw [hadds.calls_eq, Tree.ofKind_empty, zero_add, if_neg (by decide), add_zero]
  · have hecho := hadds.echoes x hx
    have ⟨start, name, hparsed, _⟩ := hecho
    exact ⟨hparsed.hasKind, hecho.namesCall hfaithful hshaped⟩

namespace WholeTree

variable {root : NodeId} {echoes : Multiset (NodeId × NodeId)} (h : WholeTree t root echoes)
include h

theorem nodup_echoes : (echoes.map Prod.fst).Nodup ∧ root ∉ echoes.map Prod.fst := by
  have hnodup : t.loose.Nodup := t.nodup_select _
  rw [h.loose_eq] at hnodup
  obtain ⟨hfst, -, hdisjoint⟩ := Multiset.nodup_add.1 hnodup
  exact ⟨hfst, Multiset.disjoint_singleton.1 hdisjoint⟩

theorem mem_echoes : e ∈ echoes.map Prod.fst ↔ e ∈ t.loose ∧ e ≠ root := by
  rw [h.loose_eq, Multiset.mem_add, Multiset.mem_singleton]
  constructor
  · exact fun he => ⟨.inl he, fun hroot => h.nodup_echoes.2 (hroot ▸ he)⟩
  · rintro ⟨he | rfl, hne⟩
    · exact he
    · exact absurd rfl hne

theorem hasKind_echo (he : e ∈ echoes.map Prod.fst) : t.HasKind "Identifier" e := by
  obtain ⟨x, hx, rfl⟩ := Multiset.mem_map.1 he
  exact (h.names x hx).1

/-- Every node is below the root, but for the root and the names that are left behind. -/
theorem below (hid : id.index < t.size) :
    id = root ∨ t.Below root id ∨ id ∈ echoes.map Prod.fst := by
  obtain ⟨top, htop, hbelow⟩ := h.owned.exists_loose hid
  rw [h.loose_eq, Multiset.mem_add, Multiset.mem_singleton] at htop
  rcases htop with htop | rfl
  · obtain ⟨node, hn, hkind⟩ := h.hasKind_echo htop
    obtain ⟨hchildren, -⟩ := exists_text h.owned h.shaped hn hkind
    rcases hbelow with rfl | hbelow
    · exact .inr (.inr htop)
    · exact absurd hbelow (h.owned.not_below hn hchildren)
  · exact hbelow.imp Eq.symm .inl

/-- A call is neither the root nor left behind. -/
theorem mem_calls : c ∈ echoes.map Prod.snd ↔ t.HasKind "Call" c ∧ t.Below root c := by
  rw [← h.calls_eq, Tree.mem_ofKind]
  refine ⟨fun hc => ⟨hc, ?_⟩, And.left⟩
  have ⟨node, hn, _⟩ := hc
  rcases h.below (Tree.index_lt_of_node? hn) with rfl | hbelow | hecho
  · exact absurd (h.script.unique hc) (by decide)
  · exact hbelow
  · exact absurd ((h.hasKind_echo hecho).unique hc) (by decide)

end WholeTree

/-- **No node is lost.** The root of a script is the last node of its tree and has no parent. Every
other node is below it, or it is a name without a parent and without children. These names are in
one-to-one correspondence with the calls below the root: each begins where its call does and is the
name of the call. -/
theorem parse_accounts {text : String} {root : NodeId} {s : Session}
    (h : parse text = (.ok root, s)) :
    root.index + 1 = s.tree.size ∧ root ∈ s.tree.loose ∧
    (∀ id node, s.tree.node? id = some node → id ≠ root → s.tree.Below root id ∨
      node.kind = "Identifier" ∧ node.parent = none ∧ node.fields.children = []) ∧
    ∃ call : NodeId → NodeId,
      Set.BijOn call {e | e ∈ s.tree.loose ∧ e ≠ root}
        {c | s.tree.HasKind "Call" c ∧ s.tree.Below root c} ∧
      ∀ e ∈ s.tree.loose, e ≠ root → NamesCall s.tree e (call e) := by
  obtain ⟨echoes, hwhole⟩ := exists_wholeTree h
  have hsnd : (echoes.map Prod.snd).Nodup := hwhole.calls_eq ▸ s.tree.nodup_select _
  have : Nonempty NodeId := ⟨root⟩
  obtain ⟨call, hcall, hbij⟩ := exists_bijOn hwhole.nodup_echoes.1 hsnd
  simp only [hwhole.mem_echoes, hwhole.mem_calls] at hbij
  refine ⟨hwhole.last, by simp [hwhole.loose_eq], fun id node hn hne => ?_, call, hbij,
    fun e he hne => ?_⟩
  · rcases hwhole.below (Tree.index_lt_of_node? hn) with hroot | hbelow | hecho
    · exact absurd hroot hne
    · exact .inl hbelow
    · obtain ⟨node', hn', hkind⟩ := hwhole.hasKind_echo hecho
      obtain ⟨node'', hn'', hparent⟩ := Tree.mem_loose.1 (hwhole.mem_echoes.1 hecho).1
      obtain rfl : node = node' := Option.some.inj (hn.symm.trans hn')
      obtain rfl : node = node'' := Option.some.inj (hn.symm.trans hn'')
      exact .inr ⟨hkind, hparent, (exists_text hwhole.owned hwhole.shaped hn hkind).1⟩
  · obtain ⟨x, hx, rfl⟩ := Multiset.mem_map.1 (hwhole.mem_echoes.2 ⟨he, hne⟩)
    rw [hcall x hx]
    exact (hwhole.names x hx).2

/-- Two calls, one inside the other, leave the names `f` and `g` behind. -/
theorem parse_accounts_nested :
    let s := (parse "let a = f(g(x), 1);").2
    parse "let a = f(g(x), 1);" = (.ok ⟨14⟩, s) ∧ s.tree.size = 15 ∧
      s.tree.loose = {⟨1⟩, ⟨3⟩, ⟨14⟩} ∧ s.tree.ofKind "Call" = {⟨7⟩, ⟨11⟩} ∧
      ∃ call : NodeId → NodeId,
        Set.BijOn call {e | e ∈ s.tree.loose ∧ e ≠ ⟨14⟩}
          {c | s.tree.HasKind "Call" c ∧ s.tree.Below ⟨14⟩ c} ∧
        ∀ e ∈ s.tree.loose, e ≠ ⟨14⟩ → NamesCall s.tree e (call e) := by
  intro s
  have hroot : (parse "let a = f(g(x), 1);").1.toOption = some ⟨14⟩ := by decide +kernel
  have hparse : parse "let a = f(g(x), 1);" = (.ok ⟨14⟩, s) := by
    refine Prod.ext ?_ rfl
    rcases hanswer : (parse "let a = f(g(x), 1);").1 with e | id <;> rw [hanswer] at hroot <;>
      cases hroot
    rfl
  exact ⟨hparse, by decide +kernel, by decide +kernel, by decide +kernel,
    (parse_accounts hparse).2.2.2⟩

end Script
end Descent
