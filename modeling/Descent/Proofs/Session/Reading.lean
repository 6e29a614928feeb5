import Descent.Proofs.Cursor.Span
import Descent.Proofs.Session.Growth
import Descent.Proofs.Tree.Display

/-!
# Sessions that follow a reader

* `Reader`: a function that takes a value from the front of a text;
* `Agrees`: an outcome fails exactly if a reader does;
* `Session.Comes`: what a parse changes: the place of the cursor, and new nodes in the tree;
* `Session.Parses`: a production that follows a reader.

A program is compared with a reader request by request (`Agrees.bind`); that a production follows a
reader then comes from its program one level deeper (`parses_of_body`).
-/

namespace Descent

/-- Takes a value from the front of a text and leaves the rest. -/
abbrev Reader (α : Type) := List Char → Option (α × List Char)

/-- A reader that needs one more level. -/
def deeper {α : Type} (levels : Nat) (read : Reader α) : Reader α :=
  match levels with
  | 0 => fun _ => none
  | _ + 1 => read

theorem deeper_eq_none {α : Type} {read : Reader α} {cs : List Char} (h : read cs = none)
    (levels : Nat) : deeper levels read cs = none := by
  cases levels with
  | zero => rfl
  | succ levels => exact h

theorem deeper_eq_some_iff {α : Type} {read : Reader α} {levels : Nat} {cs : List Char}
    {x : α × List Char} : deeper levels read cs = some x ↔ 0 < levels ∧ read cs = some x := by
  cases levels with
  | zero => simp [deeper]
  | succ levels => simp [deeper]

section
variable {α β γ δ : Type}

/-- An outcome is a failure exactly if there is no answer, and otherwise stands in a relation to the
answer. -/
def Agrees (outcome : Outcome Session α) (answer : Option β) (post : α → β → Session → Prop) :
    Prop :=
  match answer with
  | none => ∃ e s, outcome = (.error e, s)
  | some b => ∃ a s, outcome = (.ok a, s) ∧ post a b s

variable {outcome : Outcome Session α} {answer : Option β} {post post' : α → β → Session → Prop}

theorem Agrees.mono (h : Agrees outcome answer post)
    (hpost : ∀ a b s, post a b s → post' a b s) : Agrees outcome answer post' := by
  cases answer with
  | none => exact h
  | some b =>
    obtain ⟨a, s, ho, hp⟩ := h
    exact ⟨a, s, ho, hpost a b s hp⟩

theorem Agrees.map {f : β → γ} {post : α → γ → Session → Prop}
    (h : Agrees outcome answer fun a b s => post a (f b) s) :
    Agrees outcome (answer.map f) post := by
  cases answer <;> exact h

namespace Program

variable {handle : Handler} {s s' : Session} {p : Program α} {f : α → Program β}

theorem run_bind (p : Program α) (f : α → Program β) (s : Session) :
    (p >>= f).run handle s =
      match p.run handle s with
      | (.ok a, s) => (f a).run handle s
      | (.error e, s) => (.error e, s) := by
  change (p.bind f).run handle s = _
  induction p generalizing s with
  | done result => cases result <;> rfl
  | ask request next ih => exact ih _ _

end Program

variable {handle : Handler} {s s' : Session} {p : Program α} {f : α → Program β}

/-- The rule for a sequence. -/
theorem Agrees.bind {o : Option γ} {k : γ → Option δ} {mid : α → γ → Session → Prop}
    {post : β → δ → Session → Prop} (h : Agrees (p.run handle s) o mid)
    (hf : ∀ a c s', mid a c s' → Agrees ((f a).run handle s') (k c) post) :
    Agrees ((p >>= f).run handle s) (o >>= k) post := by
  rw [Program.run_bind]
  cases o with
  | none =>
    obtain ⟨e, s', ho⟩ := h
    rw [ho]
    exact ⟨e, s', rfl⟩
  | some c =>
    obtain ⟨a, s', ho, hm⟩ := h
    rw [ho]
    exact hf a c s' hm

/-- The rule for a result that is made of one answer. -/
theorem Agrees.bind_pure {o : Option γ} {k : γ → δ} {e : α → β} {mid : α → γ → Session → Prop}
    {post : β → δ → Session → Prop} (h : Agrees (p.run handle s) o mid)
    (he : ∀ a c s', mid a c s' → post (e a) (k c) s') :
    Agrees ((p >>= fun a => pure (e a)).run handle s) (o.map k) post := by
  have hbind : o.map k = (o >>= fun c => some (k c)) := by cases o <;> rfl
  rw [hbind]
  exact Agrees.bind h fun a c s' hm => ⟨_, s', rfl, he a c s' hm⟩

/-- A first part whose answer is known. -/
theorem Agrees.step {a : α} {o : Option δ} {post : β → δ → Session → Prop}
    (h : p.run handle s = (.ok a, s')) (hf : Agrees ((f a).run handle s') o post) :
    Agrees ((p >>= f).run handle s) o post := by
  rw [Program.run_bind, h]
  exact hf

end

namespace Session

/-! ## What a parse changes -/

/-- What a parse from a session to another has changed: the cursor stands before `rest`, and the
tree has new nodes, of which those in `ids` are free. -/
structure Comes (s : Session) (rest : List Char) (ids : List NodeId) (s' : Session) : Prop where
  cursor : s.cursor.MovesTo rest s'.cursor
  tree : s.tree.Sprouts ids s'.tree
  depth : s'.depth = s.depth

/-- A session that keeps the ownership invariant and has some levels left. -/
structure Ready (g : Grammar) (levels : Nat) (s : Session) : Prop where
  owned : s.tree.Owned
  kinds : s.tree.kinds = g.kinds
  depth : s.depth + levels = s.cursor.settings.maxDepth

variable {g : Grammar} {levels : Nat} {s s' s'' : Session} {rest rest' : List Char}
  {ids ids' : List NodeId}

/-- Only the cursor has moved. -/
theorem Ready.comes (h : s.Ready g levels) {c : Cursor} (hc : s.cursor.MovesTo rest c) :
    s.Comes rest [] { s with cursor := c } :=
  ⟨hc, .nil h.owned, rfl⟩

theorem Comes.trans (h : s.Comes rest ids s') (h' : s'.Comes rest' ids' s'') :
    s.Comes rest' (ids ++ ids') s'' :=
  ⟨h.cursor.trans h'.cursor, h.tree.append h'.tree, h'.depth.trans h.depth⟩

theorem Comes.ahead (h : s.Comes rest ids s') : s'.cursor.ahead = rest :=
  h.cursor.ahead

theorem Comes.ready (h : s.Comes rest ids s') (hr : s.Ready g levels) : s'.Ready g levels where
  owned := h.tree.owned
  kinds := h.tree.grows.kinds.trans hr.kinds
  depth := by rw [h.depth, h.cursor.settings, hr.depth]

/-- The new nodes are left alone. -/
theorem Comes.forget (h : s.Comes rest ids s') : s.Comes rest [] s' :=
  ⟨h.cursor, ⟨h.tree.grows, h.tree.owned, .nil _, by simp⟩, h.depth⟩

theorem Comes.keeps (h : s.Comes rest ids s') : s.tree.Keeps s'.tree :=
  h.tree.grows.keeps

/-! ## Requests -/

/-- What answers the requests of nodes one level deeper. -/
def inner (g : Grammar) : Nat → Option Handler
  | 0 => none
  | levels + 1 => some (g.handler levels)

theorem handler_eq_answer (r : Request) (s : Session) :
    g.handler levels r s = g.answer (inner g levels) r s := by
  cases levels <;> rfl

theorem run_request (r : Request) :
    (Program.request r).run (g.handler levels) s = g.answer (inner g levels) r s :=
  handler_eq_answer r s

theorem run_act {a : Cursor.Action} {answer : Except Failure a.Answer} {c : Cursor}
    (h : s.cursor.perform a = (answer, c)) :
    (Program.act a).run (g.handler levels) s = (answer, { s with cursor := c }) := by
  refine (run_request (.act a)).trans ?_
  change s.act a = _
  rw [act, h]

theorem run_state : Program.state.run (g.handler levels) s = (.ok s, s) :=
  run_request .state

theorem run_fail {α : Type} (message : String) :
    (Program.fail message : Program α).run (g.handler levels) s =
      (.error (s.cursor.unexpected message), s) := by
  cases levels <;> rfl

theorem agrees_decode (hex : String) :
    Agrees ((Program.decode hex).run (g.handler levels) s) (Cursor.codePoint? hex)
      fun c c' s' => c = c' ∧ s' = s := by
  have hrun {answer : Except Failure Char} (h : s.cursor.decode hex = answer) :
      (Program.decode hex).run (g.handler levels) s = (answer, s) :=
    run_act (a := .decode hex) (congrArg (·, s.cursor) h)
  cases h : Cursor.codePoint? hex with
  | none => exact ⟨_, _, hrun (by rw [Cursor.decode, h])⟩
  | some c => exact ⟨c, s, hrun (by rw [Cursor.decode, h]), rfl, rfl⟩

theorem Ready.run_dropSpace (h : s.Ready g levels) :
    ∃ s', Program.dropSpace.run (g.handler levels) s = (.ok (), s') ∧
      s.Comes (s.cursor.ahead.dropWhile Text.isSpace) [] s' :=
  ⟨_, run_act (a := .dropSpace) rfl, h.comes s.cursor.dropSpace_movesTo⟩

section
variable {p : Pattern} {span? : List Char → Option (List Char × List Char)} (hs : p.Spans span?)
  {l : List Char}
include hs

theorem run_sees : (Program.sees p).run (g.handler levels) s =
    (.ok (span? s.cursor.ahead).isSome, s) :=
  run_act (a := .sees p) (congrArg (·, s.cursor) (Cursor.sees_of_spans hs s.cursor))

theorem run_take?_none (h : span? s.cursor.ahead = none) :
    (Program.take? p).run (g.handler levels) s = (.ok none, s) :=
  run_act (a := .take? p) (Cursor.take?_of_span_none hs h)

theorem Ready.run_take?_some (hr : s.Ready g levels) (h : span? s.cursor.ahead = some (l, rest)) :
    ∃ s', (Program.take? p).run (g.handler levels) s = (.ok (some (String.ofList l)), s') ∧
      s.Comes rest [] s' := by
  obtain ⟨c, hc, hmoves⟩ := Cursor.take?_of_span_some hs h
  exact ⟨_, run_act (a := .take? p) hc, hr.comes hmoves⟩

theorem Ready.agrees_take (hr : s.Ready g levels) (hahead : s.cursor.ahead = rest)
    (message : Option String) :
    Agrees ((Program.take p message).run (g.handler levels) s) (span? rest)
      fun taken span s' => taken = String.ofList span.1 ∧ s.Comes span.2 [] s' := by
  subst hahead
  cases h : span? s.cursor.ahead with
  | none => exact ⟨_, _, run_act (a := .take p message) (Cursor.take_of_span_none hs h message)⟩
  | some span =>
    obtain ⟨c, hc, hmoves⟩ := Cursor.take_of_span_some hs h message
    exact ⟨_, _, run_act (a := .take p message) hc, rfl, hr.comes hmoves⟩

/-- The rule for a pattern after any space. -/
theorem Ready.agrees_spaced_take {β δ : Type} (hr : s.Ready g levels)
    (hahead : s.cursor.ahead = rest) {message : Option String} {f : String → Program β}
    {k : List Char × List Char → Option δ} {post : β → δ → Session → Prop}
    (hf : ∀ span s', s.Comes span.2 [] s' →
      Agrees ((f (String.ofList span.1)).run (g.handler levels) s') (k span) post) :
    Agrees (Program.run (g.handler levels) (do
        .dropSpace
        let taken ← .take p message
        f taken) s) (span? (rest.dropWhile Text.isSpace) >>= k) post := by
  obtain ⟨s₁, hdrop, hcomes⟩ := hr.run_dropSpace
  rw [hahead] at hcomes
  refine Agrees.step hdrop ?_
  refine Agrees.bind ((hcomes.ready hr).agrees_take hs hcomes.ahead message) ?_
  rintro _ span s' ⟨rfl, hcomes'⟩
  exact hf span s' (hcomes.trans hcomes')

end

/-! ## Productions -/

/-- What the parse of a node comes to. -/
structure Parsed (g : Grammar) (s : Session) (rest : List Char) (json : Json)
    (text : Options → String) (id : NodeId) (s' : Session) : Prop where
  comes : s.Comes rest [id] s'
  shows : g.Shows s'.tree id json text
  start : ∃ node, s'.tree.node? id = some node ∧ node.start = some s.cursor.offset

variable {α : Type} {kind : String} {options : Options} {read : Reader α} {json : α → Json}
  {text : α → Options → String} {p : Production}

/-- A production follows a reader, and its nodes show what was read. -/
def Parses (g : Grammar) (levels : Nat) (kind : String) (options : Options) (read : Reader α)
    (json : α → Json) (text : α → Options → String) : Prop :=
  ∀ ⦃s cs⦄, s.Ready g levels → s.cursor.ahead = cs →
    Agrees (g.handler levels (.parse kind options) s) (read cs)
      fun id x s' => Parsed g s x.2 (json x.1) (text x.1) id s'

theorem Parses.agrees (h : Parses g levels kind options read json text) {cs : List Char}
    (hs : s.Ready g levels) (hahead : s.cursor.ahead = cs) :
    Agrees ((Program.parse kind options).run (g.handler levels) s) (read cs)
      fun id x s' => Parsed g s x.2 (json x.1) (text x.1) id s' :=
  h hs hahead

/-- The fields of a node to be, with what the node will show. -/
structure Draws (g : Grammar) (t : Tree) (p : Production) (fields : Fields) (json : Json)
    (text : Options → String) : Prop where
  json_eq : .ofMembers (fields.entries.map fun entry => (entry.1, t.fieldJson entry.2)) = json
  write_eq : ∀ options, p.write (g.write t) fields options = text options

/-- A program follows a reader, and returns the fields of a node that shows what was read. -/
def Builds (g : Grammar) (levels : Nat) (p : Production) (options : Options) (read : Reader α)
    (json : α → Json) (text : α → Options → String) : Prop :=
  ∀ ⦃s cs⦄, s.Ready g levels → s.cursor.ahead = cs →
    Agrees ((p.body options).run (g.handler levels) s) (read cs)
      fun fields x s' => s.Comes x.2 fields.children s' ∧
        Draws g s'.tree p fields (json x.1) (text x.1)

theorem handler_parse (hp : g.find kind = .ok p) :
    g.handler levels (.parse kind options) s = p.parse (inner g levels) options s := by
  rw [handler_eq_answer]
  simp only [Grammar.answer, Grammar.parse, hp]
  rfl

section
variable {handle : Handler} {after : Session} (hd : s.depth < s.cursor.settings.maxDepth)
include hd

theorem parse_of_error {e : Failure}
    (h : (p.body options).run handle { s with depth := s.depth + 1 } = (.error e, after)) :
    p.parse (some handle) options s = (.error e, { after with depth := after.depth - 1 }) := by
  unfold Production.parse
  rw [if_neg (Nat.not_le_of_lt hd)]
  simp only [h]

theorem parse_of_ok {fields : Fields}
    (h : (p.body options).run handle { s with depth := s.depth + 1 } = (.ok fields, after))
    (hf : after.tree.Free fields.children) :
    p.parse (some handle) options s =
      (.ok ⟨after.tree.size⟩, { after with
        tree := (after.tree.append p.name (some s.cursor.offset) fields).2
        depth := after.depth - 1 }) := by
  unfold Production.parse
  rw [if_neg (Nat.not_le_of_lt hd)]
  simp only [h, Tree.graft_of_free hf]

end

/-- No level is left. -/
theorem parses_zero (hp : g.find kind = .ok p) :
    Parses g 0 kind options (fun _ => none) json text := by
  intro s cs hs _
  have hdepth : s.depth ≥ s.cursor.settings.maxDepth := Nat.le_of_eq hs.depth.symm
  have hparse : p.parse (inner g 0) options s = (.error s.tooDeep, s) := by
    unfold Production.parse
    rw [if_pos hdepth]
  exact ⟨_, _, (handler_parse hp).trans hparse⟩

theorem parses_of_builds (hp : g.find kind = .ok p)
    (h : Builds g levels p options read json text) :
    Parses g (levels + 1) kind options read json text := by
  intro s cs hs hahead
  have hdepth : s.depth < s.cursor.settings.maxDepth := by
    have := hs.depth
    omega
  have hinside : Ready g levels { s with depth := s.depth + 1 } :=
    ⟨hs.owned, hs.kinds, by rw [← hs.depth]; exact Nat.add_right_comm ..⟩
  have hbody := h hinside hahead
  cases hread : read cs with
  | none =>
    rw [hread] at hbody
    obtain ⟨e, after, hrun⟩ := hbody
    exact ⟨_, _, (handler_parse hp).trans (parse_of_error hdepth hrun)⟩
  | some x =>
    rw [hread] at hbody
    obtain ⟨fields, after, hrun, hcomes, hdraws⟩ := hbody
    have hname : p.name ∈ s.tree.kinds := by
      rw [hs.kinds]
      exact Grammar.name_mem_kinds_of_find hp
    refine ⟨_, _, (handler_parse hp).trans (parse_of_ok hdepth hrun hcomes.tree.fresh.free),
      ?_, ?_, ?_⟩
    · exact ⟨hcomes.cursor, hcomes.tree.node hname, by simp [hcomes.depth]⟩
    · exact ⟨by simp, Tree.json_append.trans hdraws.json_eq, fun options =>
        (Grammar.write_append (Grammar.find?_of_find hp) options).trans (hdraws.write_eq options)⟩
    · exact ⟨_, Tree.node?_append_new, rfl⟩

/-- A production takes a level of its own. -/
theorem parses_deeper {read : Nat → Reader α} (hp : g.find kind = .ok p)
    (h : ∀ levels, Builds g levels p options (read levels) json text) (levels : Nat) :
    Parses g levels kind options (deeper levels (read (levels - 1))) json text := by
  cases levels with
  | zero => exact parses_zero hp
  | succ levels => exact parses_of_builds hp (h levels)

/-- A session further on goes back to a node that begins where another one on its text stands. -/
theorem exists_rewind {id : NodeId} (h : s.cursor.MovesTo rest s'.cursor)
    (hid : ∃ node, s'.tree.node? id = some node ∧ node.start = some s.cursor.offset) :
    ∃ back, s'.rewind id = (.ok (), { s' with cursor := back }) ∧
      s.cursor.MovesTo s.cursor.ahead back := by
  obtain ⟨node, hnode, hstart⟩ := hid
  obtain ⟨back, hgo, hback⟩ := h.goTo
  refine ⟨back, ?_, hback⟩
  simp only [rewind, hnode, hstart, hgo]

/-- Goes back to where a node was parsed from. -/
theorem Parsed.run_rewind {json : Json} {text : Options → String} {id : NodeId}
    (h : Parsed g s rest json text id s') :
    ∃ s'', (Program.rewind id).run (g.handler levels) s' = (.ok (), s'') ∧
      s.Comes s.cursor.ahead [] s'' := by
  obtain ⟨back, hrewind, hback⟩ := exists_rewind h.comes.cursor h.start
  have hforget := h.comes.forget
  exact ⟨{ s' with cursor := back }, (run_request (.rewind id)).trans hrewind,
    hback, hforget.tree, hforget.depth⟩

/-! ## New sessions -/

section
variable {content : String} {settings : Settings} (h : withSettings content g settings = .ok s)
include h

theorem withSettings_ok : 0 < settings.maxDepth ∧ s.cursor.ahead = content.toList ∧ s.depth = 0 ∧
    s.cursor.settings = settings ∧ s.tree = .empty g.kinds := by
  unfold withSettings Cursor.withSettings at h
  cases hcheck : settings.check with
  | error e =>
    rw [hcheck] at h
    cases h
  | ok =>
    rw [hcheck] at h
    cases h
    refine ⟨?_, rfl, rfl, rfl, rfl⟩
    unfold Settings.check at hcheck
    split at hcheck
    · cases hcheck
    split at hcheck
    · cases hcheck
    next hdepth => exact Nat.pos_of_ne_zero hdepth

theorem withSettings_offset : s.cursor.offset = 0 := by
  unfold withSettings Cursor.withSettings at h
  cases hcheck : settings.check with
  | error e =>
    rw [hcheck] at h
    cases h
  | ok =>
    rw [hcheck] at h
    cases h
    rfl

/-- A new session has as many levels as its settings say. -/
theorem withSettings_parse (kind : String) (options : Options) :
    s.parse g kind options = g.handler settings.maxDepth (.parse kind options) s := by
  obtain ⟨-, -, hdepth, hsettings, -⟩ := withSettings_ok h
  rw [Session.parse, handle, hdepth, hsettings, Nat.sub_zero]

theorem Parses.agrees_parse (hp : Parses g settings.maxDepth kind options read json text) :
    Agrees (s.parse g kind options) (read content.toList)
      fun id x s' => Parsed g s x.2 (json x.1) (text x.1) id s' := by
  obtain ⟨-, hahead, hdepth, hsettings, htree⟩ := withSettings_ok h
  have hready : s.Ready g settings.maxDepth :=
    ⟨htree ▸ Tree.owned_empty _, by rw [htree]; rfl, by rw [hdepth, hsettings, Nat.zero_add]⟩
  rw [withSettings_parse h]
  exact hp hready hahead

end

end Session
end Descent
