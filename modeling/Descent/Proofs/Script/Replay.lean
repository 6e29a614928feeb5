import Descent.Proofs.Program.Grammars
import Descent.Proofs.Script.Parsing
import Descent.Proofs.Session.Progress

/-!
# Every node can be parsed again

* `Reader.Under`: a reader that reads no more than another, and the same where it reads;
* `Replays`: a node that parses again from where it begins in a text, to the same JSON;
* `Faithful`: a tree of such nodes;
* `Retains`: a session over the text with such a tree.

More levels never change what is read (`under_expr`), and what a production reads does not depend on
its options. So a node that was parsed deep inside a script is parsed again on its own.
-/

namespace Descent

/-! ## More levels -/

namespace Reader

variable {α : Type}

/-- Where a reader reads, another reads the same. -/
def Under (read read' : Reader α) : Prop :=
  ∀ cs x, read cs = some x → read' cs = some x

variable {read read' : Reader α} {m n : Nat}

theorem Under.refl (read : Reader α) : read.Under read := fun _ _ => id

theorem Under.deeper (h : read.Under read') (hmn : m ≤ n) :
    Under (deeper m read) (deeper n read') := by
  intro cs x hread
  cases m with
  | zero => cases hread
  | succ m =>
    cases n with
    | zero => cases hmn
    | succ n => exact h cs x hread

theorem Under.many {turn turn' : Reader (Turn α)} (h : turn.Under turn') :
    Under (Reader.many turn) (Reader.many turn') := by
  intro cs x hmany
  fun_induction Reader.many turn cs generalizing x with
  | case1 => cases hmany
  | case2 cs rest hturn =>
    rw [many_of_stop (h _ _ hturn), hmany]
  | case3 cs y rest hturn =>
    rw [many_of_last (h _ _ hturn), hmany]
  | case4 cs y tail hturn hlt ih =>
    obtain ⟨z, hz, rfl⟩ := Option.map_eq_some_iff.1 hmany
    rw [many_of_next (h _ _ hturn) hlt, ih _ hz]
    rfl
  | case5 => cases hmany

theorem Under.seriesTurn (h : read.Under read') (starts : List Char → Bool) :
    Under (read.seriesTurn starts) (read'.seriesTurn starts) := by
  intro cs x hturn
  unfold Reader.seriesTurn at hturn ⊢
  split
  next hstarts =>
    rw [if_pos hstarts] at hturn
    obtain ⟨y, hy, rfl⟩ := Option.map_eq_some_iff.1 hturn
    rw [h _ _ hy]
    rfl
  next hstarts => rwa [if_neg hstarts] at hturn

theorem Under.commaTurn (h : read.Under read') : Under read.commaTurn read'.commaTurn := by
  intro cs x hturn
  obtain ⟨y, hy, rfl⟩ := Option.map_eq_some_iff.1 hturn
  rw [Reader.commaTurn, h _ _ hy]
  rfl

end Reader

namespace Script

open Reader (Under)

variable {m n : Nat}

theorem under_call {read read' : Reader Expr} (h : read.Under read') (hmn : m ≤ n) :
    Under (readCall m read) (readCall n read') := by
  intro cs x hread
  obtain ⟨⟨name, cs₁⟩, hname, hread⟩ := Option.bind_eq_some_iff.1 hread
  obtain ⟨⟨_, cs₂⟩, hopen, hread⟩ := Option.bind_eq_some_iff.1 hread
  obtain ⟨⟨args, cs₃⟩, hargs, hread⟩ := Option.bind_eq_some_iff.1 hread
  have hname' := (Under.refl readName).deeper hmn _ _ hname
  have hargs' : readArgs read' (cs₂.dropWhile Text.isSpace) = some (args, cs₃) := by
    unfold readArgs at hargs ⊢
    split
    next hclose => rwa [if_pos hclose] at hargs
    next hclose =>
      rw [if_neg hclose] at hargs
      exact h.commaTurn.many _ _ hargs
  unfold readCall
  simp only [hname', hopen, hargs', Option.bind_eq_bind, Option.bind_some]
  exact hread

theorem under_expr (hmn : m ≤ n) : Under (readExpr m) (readExpr n) := by
  induction m using Nat.twoStepInduction generalizing n with
  | zero => exact fun _ _ h => by cases h
  | one => exact fun _ _ h => by cases h
  | more m ih _ =>
    intro cs x hread
    obtain ⟨n, rfl⟩ : ∃ k, n = k + 2 := ⟨n - 2, by omega⟩
    have hm : m ≤ n := Nat.le_of_add_le_add_right hmn
    rw [readExpr] at hread ⊢
    split
    next htext => rwa [if_pos htext] at hread
    next htext =>
    rw [if_neg htext] at hread
    split
    next hnumber => rwa [if_pos hnumber] at hread
    next hnumber =>
    rw [if_neg hnumber] at hread
    obtain ⟨⟨name, rest⟩, hname, hread⟩ := Option.bind_eq_some_iff.1 hread
    simp only [hname, Option.bind_eq_bind, Option.bind_some]
    split
    next hopen =>
      simp only [if_pos hopen] at hread
      obtain ⟨call, hcall, rfl⟩ := Option.map_eq_some_iff.1 hread
      rw [under_call (ih hm) hm _ _ hcall]
      rfl
    next hopen => simpa only [if_neg hopen] using hread

theorem under_callAt (hmn : m ≤ n) : Under (readCallAt m) (readCallAt n) := by
  intro cs x hread
  cases m with
  | zero => cases hread
  | succ m =>
    obtain ⟨n, rfl⟩ : ∃ k, n = k + 1 := ⟨n - 1, by omega⟩
    have hm : m ≤ n := Nat.le_of_add_le_add_right hmn
    exact under_call (under_expr hm) hm _ _ hread

theorem under_binding (hmn : m ≤ n) : Under (readBinding m) (readBinding n) := by
  intro cs x hread
  obtain ⟨⟨_, cs₁⟩, hword, hread⟩ := Option.bind_eq_some_iff.1 hread
  obtain ⟨⟨name, cs₂⟩, hname, hread⟩ := Option.bind_eq_some_iff.1 hread
  obtain ⟨⟨_, cs₃⟩, hequals, hread⟩ := Option.bind_eq_some_iff.1 hread
  obtain ⟨⟨value, cs₄⟩, hvalue, hread⟩ := Option.bind_eq_some_iff.1 hread
  have hname' := (Under.refl readName).deeper hmn _ _ hname
  have hvalue' := under_expr hmn _ _ hvalue
  unfold readBinding
  simp only [hword, hname', hequals, hvalue', Option.bind_eq_bind, Option.bind_some]
  exact hread

theorem under_script (hmn : m ≤ n) : Under (readScript m) (readScript n) := by
  intro cs x hread
  obtain ⟨⟨bindings, rest⟩, hmany, hread⟩ := Option.bind_eq_some_iff.1 hread
  have hbinding : Under (deeper m (readBinding (m - 1))) (deeper n (readBinding (n - 1))) :=
    (under_binding (Nat.sub_le_sub_right hmn 1)).deeper hmn
  have hmany' := (hbinding.seriesTurn startsBinding).many _ _ hmany
  unfold readScript
  simp only [hmany', Option.bind_eq_bind, Option.bind_some]
  exact hread

/-! ## What is read again -/

open Session (Parses Parsed)

/-- The nodes of a production are read from the text ahead, whatever the options, and more levels do
not change them. -/
structure Reads (kind : String) {α : Type} (read : Nat → Reader α) (json : α → Json)
    (source : α → Options → String) : Prop where
  parses : ∀ levels options, Parses grammar levels kind options (read levels) json source
  under : ∀ {m n}, m ≤ n → (read m).Under (read n)

theorem exists_reads {kind : String} {p : Production} (hp : grammar.find kind = .ok p) :
    ∃ (α : Type) (read : Nat → Reader α) (json : α → Json) (source : α → Options → String),
      Reads kind read json source := by
  have hkind : kind ∈ grammar.kinds := by
    rw [← Grammar.name_eq_of_find hp]
    exact Grammar.name_mem_kinds_of_find hp
  rcases mem_kinds.1 hkind with rfl | rfl | rfl | rfl | rfl | rfl | rfl
  · exact ⟨_, _, _, _, fun _ _ => parses_name, (Under.refl readName).deeper⟩
  · exact ⟨_, _, _, _, fun _ _ => parses_number, (Under.refl readNumber).deeper⟩
  · exact ⟨_, _, _, _, fun _ _ => parses_text, (Under.refl readText).deeper⟩
  · exact ⟨_, _, _, _, fun levels _ => parses_call levels, under_callAt⟩
  · exact ⟨_, _, _, _, fun levels _ => parses_expr levels, under_expr⟩
  · exact ⟨_, _, _, _, fun levels _ => parses_binding levels,
      fun h => (under_binding (Nat.sub_le_sub_right h 1)).deeper h⟩
  · exact ⟨_, _, _, _, fun levels _ => parses_script levels,
      fun h => (under_script (Nat.sub_le_sub_right h 1)).deeper h⟩

/-- A node is parsed again, to the same JSON, from where it begins in a text: by every session that
has as many levels as a new one and stands there. -/
def Replays (content : List Char) (node : Node) (json : Json) : Prop :=
  ∃ l cs, l ++ cs = content ∧ node.start = some (Text.size l) ∧
    ∀ ⦃s⦄, s.Ready grammar 1000 → s.cursor.ahead = cs → ∀ options, ∃ id s' rest source,
      grammar.handler 1000 (.parse node.kind options) s = (.ok id, s') ∧
        Parsed grammar s rest json source id s'

/-- What has been parsed with no more levels is parsed again. -/
theorem replays_of_parse {kind : String} {p : Production} (hp : grammar.find kind = .ok p)
    {levels : Nat} (hlevels : levels ≤ 1000) {s s' : Session} (hs : s.Ready grammar levels)
    {options : Options} {id : NodeId}
    (hparse : grammar.handler levels (.parse kind options) s = (.ok id, s')) {node : Node}
    (hnode : s'.tree.node? id = some node) (hkind : node.kind = kind) :
    Replays s.cursor.text node (s'.tree.json id) := by
  obtain ⟨α, read, json, source, hreads⟩ := exists_reads hp
  have hagrees := hreads.parses levels options hs rfl
  rw [hparse] at hagrees
  cases hread : read levels s.cursor.ahead with
  | none =>
    rw [hread] at hagrees
    obtain ⟨e, s'', h⟩ := hagrees
    cases h
  | some x =>
    rw [hread] at hagrees
    obtain ⟨_, _, h, hparsed⟩ := hagrees
    cases h
    obtain ⟨node', hnode', hstart⟩ := hparsed.start
    obtain rfl : node = node' := Option.some.inj (hnode.symm.trans hnode')
    refine ⟨s.cursor.behind.reverse, s.cursor.ahead, rfl, ?_, ?_⟩
    · rw [hstart, Text.size_reverse]
      rfl
    · -- Neither the options nor more levels make a difference to what is read.
      intro s₁ hs₁ hahead options'
      have hagrees' := hreads.parses 1000 options' hs₁ hahead
      rw [hreads.under hlevels _ _ hread] at hagrees'
      obtain ⟨id', s₁', hparse', hparsed'⟩ := hagrees'
      rw [hkind, hparsed.shows.json_eq]
      exact ⟨id', s₁', x.2, source x.1, hparse', hparsed'⟩

/-! ## Trees whose nodes are read again -/

/-- A tree whose nodes are all parsed again from where they begin in a text. -/
structure Faithful (content : List Char) (t : Tree) : Prop where
  owned : t.Owned
  kinds : t.kinds = grammar.kinds
  replays : ∀ {id node}, t.node? id = some node → Replays content node (t.json id)

/-- A session over a text, with such a tree and some levels left. -/
structure Retains (content : List Char) (levels : Nat) (s : Session) : Prop where
  tree : Faithful content s.tree
  text : s.cursor.text = content
  depth : s.depth + levels = s.cursor.settings.maxDepth

variable {content : List Char} {levels : Nat} {s s' : Session} {kind : String} {p : Production}
  {options : Options}

theorem Retains.ready (h : Retains content levels s) : s.Ready grammar levels :=
  ⟨h.tree.owned, h.tree.kinds, h.depth⟩

theorem Retains.of_stays (h : Retains content levels s) (hs : s.Stays s')
    (ht : Faithful content s'.tree) : Retains content levels s' :=
  ⟨ht, hs.text.trans h.text, by rw [hs.depth, hs.settings, h.depth]⟩

theorem Retains.spaced (h : Retains content levels s) : Retains content levels s.spaced :=
  h.of_stays s.stays_spaced h.tree

/-- What every round of a repetition keeps is kept by the repetition. -/
theorem Retains.collectAll (h : Retains content levels s)
    {round : Session → Outcome Session Session.Round}
    (hstays : ∀ s : Session, s.Stays (round s).2)
    (htree : ∀ s, Retains content levels s → Faithful content (round s).2.tree) :
    Retains content levels (Session.collectAll round s).2 :=
  Session.collect_rel (R := fun s s' => Retains content levels s → Retains content levels s')
    (fun _ => id) (fun h h' => h' ∘ h) (fun s h => h.of_stays (hstays s) (htree s h)) _ _ s h

/-- A node that is parsed again joins such a tree. -/
theorem Faithful.append {t : Tree} (h : Faithful content t) {start : Option Nat} {fields : Fields}
    (hkind : kind ∈ grammar.kinds) (hf : t.Free fields.children)
    (hnew : Replays content ⟨kind, start, fields, none⟩
      ((t.append kind start fields).2.json ⟨t.size⟩)) :
    Faithful content (t.append kind start fields).2 where
  owned := h.owned.append (h.kinds ▸ hkind) hf
  kinds := h.kinds
  replays {id node} hn := by
    rw [Tree.node?_append] at hn
    split at hn
    next hid =>
      obtain rfl : id = ⟨t.size⟩ := NodeId.eq_of_index_eq hid
      cases hn
      exact hnew
    next =>
      obtain ⟨old, hold, rfl⟩ := Option.map_eq_some_iff.1 hn
      rw [Tree.keeps_append.json_eq (Tree.index_lt_of_node? hold)]
      have hreplays := h.replays hold
      split <;> exact hreplays

theorem stays_inner (levels : Nat) :
    ∀ handle ∈ Session.inner grammar levels, ∀ r s, Session.Stays s (handle r s).2 := by
  cases levels with
  | zero => nofun
  | succ levels =>
    rintro _ ⟨⟩
    exact grammar.stays_handler levels

/-- What answers the requests of a program one level deeper keeps such sessions. -/
def HandlerRetains (content : List Char) (levels : Nat) (handle : Handler) : Prop :=
  ∀ r s, r.byHand = false → Retains content levels s → Retains content levels (handle r s).2

section
variable (hlevels : levels ≤ 1000)
  (hinner : ∀ k, levels = k + 1 → HandlerRetains content k (grammar.handler k))
include hlevels hinner

theorem faithful_parse (hp : grammar.find kind = .ok p) (h : Retains content levels s) :
    Faithful content (p.parse (Session.inner grammar levels) options s).2.tree := by
  have hparse : grammar.handler levels (.parse kind options) s =
      p.parse (Session.inner grammar levels) options s := Session.handler_parse hp
  have hname := Grammar.name_eq_of_find hp
  unfold Production.parse at hparse ⊢
  cases levels with
  | zero => split <;> exact h.tree
  | succ levels =>
    have hroom : ¬s.depth ≥ s.cursor.settings.maxDepth := by
      have := h.depth
      omega
    rw [if_neg hroom] at hparse ⊢
    have hbody := (locals p (Grammar.mem_of_find hp)).body 0 options
    have hinside : Retains content levels { s with depth := s.depth + 1 } :=
      ⟨h.tree, h.text, by rw [← h.depth]; exact Nat.add_right_comm ..⟩
    have hafter := hbody.natural.run (fun hr hs => hinner levels rfl _ _ hr hs) hinside
    simp only [Session.inner] at hparse ⊢
    rcases hrun : (p.body options).run (grammar.handler levels) { s with depth := s.depth + 1 } with
      ⟨e | fields, after⟩
    · rw [hrun] at hafter
      exact hafter.tree
    · rw [hrun] at hafter hparse
      by_cases hf : after.tree.Free fields.children
      · simp only [Tree.graft_of_free hf] at hparse ⊢
        have hmem : p.name ∈ grammar.kinds := Grammar.name_mem_kinds_of_find hp
        -- The nodes below are parsed again as they were before; this one is by its own parse.
        refine hafter.tree.append hmem hf ?_
        rw [← h.text]
        exact replays_of_parse hp hlevels h.ready hparse Tree.node?_append_new hname
      · obtain ⟨e, he⟩ : ∃ e, after.tree.graft p.name (some s.cursor.offset) fields =
            (.error e, after.tree) := Tree.graft_of_not_free hf
        simp only [he]
        exact hafter.tree

/-- The round of a repetition. -/
theorem faithful_round (hp : grammar.find kind = .ok p) (h : Retains content levels s)
    (hs : s.Moves s' ∨
      Session.Moves (p.parse (Session.inner grammar levels) options s.spaced).2 s') :
    Faithful content s'.tree := by
  rcases hs with hs | hs
  · rw [hs.tree]
    exact h.tree
  · rw [hs.tree]
    exact faithful_parse hlevels hinner hp h.spaced

theorem faithful_answer {r : Request} (hr : r.byHand = false) (h : Retains content levels s) :
    Faithful content (grammar.answer (Session.inner grammar levels) r s).2.tree := by
  have hstays := stays_inner levels
  cases r with
  | act | sees | write | state => exact h.tree
  | insert | copy => cases hr
  | rewind id =>
    simp only [Grammar.answer, Session.rewind]
    split
    · exact h.tree
    · split <;> exact h.tree
  | parse kind options =>
    simp only [Grammar.answer, Grammar.parse]
    split
    · exact h.tree
    next p hp => exact faithful_parse hlevels hinner hp h
  | series kind options =>
    simp only [Grammar.answer, Grammar.series]
    split
    · exact h.tree
    next p hp =>
      refine (h.collectAll (Grammar.stays_seriesRound hstays p options) fun s h => ?_).tree
      exact faithful_round hlevels hinner hp h (grammar.seriesRound_moves _ p options s)
  | commaList kind options =>
    simp only [Grammar.answer, Grammar.commaList]
    split
    · exact h.tree
    next p hp =>
      refine (h.collectAll (Grammar.stays_commaRound hstays p options) fun s h => ?_).tree
      exact faithful_round hlevels hinner hp h (grammar.commaRound_moves _ p options s)

end

/-- With no more levels than a new session has, every node stays one that is parsed again. -/
theorem keeps_handler (hlevels : levels ≤ 1000) :
    HandlerRetains content levels (grammar.handler levels) := by
  induction levels with
  | zero =>
    intro r s hr h
    refine h.of_stays (grammar.stays_handler 0 r s) ?_
    exact faithful_answer hlevels nofun hr h
  | succ levels ih =>
    intro r s hr h
    refine h.of_stays (grammar.stays_handler (levels + 1) r s) (faithful_answer hlevels ?_ hr h)
    rintro _ ⟨⟩
    exact ih (Nat.le_of_succ_le hlevels)

/-! ## Replaying -/

theorem retains_ofText (text : String) :
    Retains text.toList 1000 (.ofText text grammar) where
  tree := ⟨Tree.owned_empty _, rfl, nofun⟩
  text := rfl
  depth := rfl

/-- What parses a script keeps every node of its tree parsable. -/
theorem retains_of_parse {text : String} {root : NodeId} (h : parse text = (.ok root, s)) :
    Retains text.toList 1000 s := by
  have hs := keeps_handler (Nat.le_refl 1000) (.parse "Script" none) _ rfl (retains_ofText text)
  have hparse : grammar.handler 1000 (.parse "Script" none) (.ofText text grammar) =
      (.ok root, s) := h
  rwa [hparse] at hs

/-- **Replay.** In the session that has parsed a script, the cursor can be moved back to before any
node of the tree, whether another node refers to it or none does. There a node of its kind parses,
with whatever options, to a new node that begins where the first does and has the same JSON. -/
theorem parse_replays {text : String} {root id : NodeId} {node : Node}
    (h : parse text = (.ok root, s)) (hnode : s.tree.node? id = some node) :
    ∃ back, s.rewind id = (.ok (), back) ∧ ∀ options, ∃ id' s' node',
      back.parse grammar node.kind options = (.ok id', s') ∧ s.tree.size ≤ id'.index ∧
      s'.tree.node? id' = some node' ∧ node'.start = node.start ∧
      s'.tree.json id' = s.tree.json id := by
  have hs := retains_of_parse h
  obtain ⟨l, cs, hcut, hstart, hreplay⟩ := hs.tree.replays hnode
  rw [← hs.text] at hcut
  obtain ⟨c, hc, hoffset, hahead, hsettings⟩ : ∃ c, s.cursor.goTo (Text.size l) = (.ok (), c) ∧
      c.offset = Text.size l ∧ c.ahead = cs ∧ c.settings = s.cursor.settings :=
    ⟨_, Cursor.goTo_size hcut, Text.size_reverse l, rfl, rfl⟩
  have hdepth : s.depth + 1000 = c.settings.maxDepth := by rw [hsettings, hs.depth]
  refine ⟨{ s with cursor := c }, ?_, fun options => ?_⟩
  · simp only [Session.rewind, hnode, hstart, hc]
  · obtain ⟨id', s', rest, source, hparse, hparsed⟩ :=
      hreplay (s := { s with cursor := c }) ⟨hs.tree.owned, hs.tree.kinds, hdepth⟩ hahead options
    obtain ⟨node', hnode', hstart'⟩ := hparsed.start
    have hlevels : c.settings.maxDepth - s.depth = 1000 := by omega
    refine ⟨id', s', node', ?_, ?_, hnode', ?_, hparsed.shows.json_eq⟩
    · exact (Session.handle_eq_handler hlevels _).trans hparse
    · exact hparsed.comes.tree.fresh.le _ (List.mem_singleton_self _)
    · rw [hstart', hstart, ← hoffset]

/-- The name in front of the parenthesis has been parsed twice. No node refers to the first of its
two nodes. -/
theorem parse_replays_name :
    let s := (parse "let a = f(b);").2
    ∃ root node, parse "let a = f(b);" = (.ok root, s) ∧ s.tree.node? ⟨1⟩ = some node ∧
      (node.kind, node.start, node.parent) = ("Identifier", some 8, none) ∧
      ∃ back, s.rewind ⟨1⟩ = (.ok (), back) ∧ ∀ options, ∃ id' s' node',
        back.parse grammar node.kind options = (.ok id', s') ∧ s.tree.size ≤ id'.index ∧
        s'.tree.node? id' = some node' ∧ node'.start = node.start ∧
        s'.tree.json id' = s.tree.json ⟨1⟩ := by
  intro s
  have hok : (parse "let a = f(b);").1.toOption.isSome := by decide +kernel
  have hname : (s.tree.node? ⟨1⟩).map (fun node => (node.kind, node.start, node.parent)) =
      some ("Identifier", some 8, none) := by decide +kernel
  obtain ⟨node, hnode, hfields⟩ := Option.map_eq_some_iff.1 hname
  obtain ⟨root, hroot⟩ := Option.isSome_iff_exists.1 hok
  have hparse : parse "let a = f(b);" = (.ok root, s) := by
    refine Prod.ext ?_ rfl
    rcases hanswer : (parse "let a = f(b);").1 with e | id <;> rw [hanswer] at hroot <;> cases hroot
    rfl
  exact ⟨root, node, hparse, hnode, hfields, parse_replays hparse hnode⟩

end Script
end Descent
