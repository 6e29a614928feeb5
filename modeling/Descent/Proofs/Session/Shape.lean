import Descent.Proofs.Program.Local
import Descent.Proofs.Session.Local
import Descent.Proofs.Session.Reading
import Descent.Proofs.Tree.Display

/-!
# Shapes of nodes

* `Shapes`: what the fields of a node of each kind are like, in a tree;
* `Program.Gives`: what the result of a program is, given the kinds of the nodes it was answered;
* `Production.Fitting`: a production whose nodes have the shape of their kind;
* `Session.Arises`: the sessions that requests lead to without nodes made by hand.

Every node is appended by a parse, with the fields that the program of its production gives. So if
all productions are fitting, then every node of every such session has the shape of its kind, also
the nodes that a failure or a second parse of the same text leaves behind.
-/

namespace Descent

/-! ## Kinds of nodes -/

namespace Tree

/-- A node of a tree is of a kind. -/
def HasKind (t : Tree) (kind : String) (id : NodeId) : Prop :=
  ∃ node, t.node? id = some node ∧ node.kind = kind

/-- Nodes are of the kinds they are said to be of. -/
def Knows (t : Tree) (known : List (String × NodeId)) : Prop :=
  ∀ fact ∈ known, t.HasKind fact.1 fact.2

variable {t t' t'' : Tree} {kind : String} {id : NodeId} {known known' : List (String × NodeId)}

theorem Keeps.refl (t : Tree) : t.Keeps t := (Extends.refl t).keeps

theorem Keeps.trans (h : t.Keeps t') (h' : t'.Keeps t'') : t.Keeps t'' := by
  refine ⟨h'.kinds.trans h.kinds, fun hn => ?_⟩
  obtain ⟨parent, hn'⟩ := h.node? hn
  obtain ⟨parent', hn''⟩ := h'.node? hn'
  exact ⟨parent', hn''⟩

theorem Keeps.hasKind (h : t.Keeps t') (hk : t.HasKind kind id) : t'.HasKind kind id := by
  obtain ⟨node, hn, hkind⟩ := hk
  obtain ⟨parent, hn'⟩ := h.node? hn
  exact ⟨_, hn', hkind⟩

theorem Keeps.knows (h : t.Keeps t') (hk : t.Knows known) : t'.Knows known :=
  fun fact hf => h.hasKind (hk fact hf)

theorem Knows.hasKind (h : t.Knows known) (hm : (kind, id) ∈ known) : t.HasKind kind id :=
  h _ hm

theorem Knows.last (h : t.Knows (known ++ [(kind, id)])) : t.HasKind kind id :=
  h.hasKind (List.mem_append_right _ (.head _))

theorem Knows.append (h : t.Knows known) (h' : t.Knows known') : t.Knows (known ++ known') :=
  fun fact hf => (List.mem_append.1 hf).elim (h fact) (h' fact)

theorem knows_map {ids : List NodeId} :
    t.Knows (ids.map (kind, ·)) ↔ ∀ id ∈ ids, t.HasKind kind id := by
  simp [Knows]

end Tree

/-- What the fields of a node of a kind are like. It may be said of the nodes that they refer to, as
far as it stays true when the tree grows. -/
structure Shapes where
  Fits : Tree → String → Fields → Prop
  mono : ∀ {t t' kind fields}, t.Keeps t' → Fits t kind fields → Fits t' kind fields

/-- Every node has the shape of its kind. -/
def Tree.Shaped (S : Shapes) (t : Tree) : Prop :=
  ∀ id node, t.node? id = some node → S.Fits t node.kind node.fields

namespace Tree

variable {S : Shapes} {t : Tree} {kind : String} {start : Option Nat} {fields : Fields}

theorem shaped_empty (kinds : List String) : (empty kinds).Shaped S :=
  fun _ _ hn => by cases hn

theorem Shaped.append (h : t.Shaped S) (hf : S.Fits t kind fields) :
    (t.append kind start fields).2.Shaped S := by
  intro id node hn
  rw [node?_append] at hn
  split at hn
  · cases hn
    exact S.mono keeps_append hf
  · obtain ⟨old, hold, rfl⟩ := Option.map_eq_some_iff.1 hn
    have hkeeps : t.Keeps (t.append kind start fields).2 := keeps_append
    have hfits := S.mono hkeeps (h id old hold)
    split <;> exact hfits

end Tree

/-! ## Programs -/

/-- What an answer tells about the kinds of nodes. -/
def Request.learnt : (r : Request) → r.Answer → List (String × NodeId)
  | parse kind _, id => [(kind, id)]
  | series kind _, ids | commaList kind _, ids => ids.map (kind, ·)
  | act _, _ | sees .., _ | rewind _, _ | insert .., _ | copy _, _ | write .., _ | state, _ => []

/-- An answer that a request can have: an action of the cursor has those that it has at some
cursor. -/
def Request.Possible : (r : Request) → r.Answer → Prop
  | act a, x => ∃ c : Cursor, (c.perform a).1 = .ok x
  | _, _ => True

namespace Program

variable {α β : Type} {known : List (String × NodeId)}

/-- A program that makes no node by hand, and whose results are as `Q` says, given what is known of
the kinds of nodes. -/
inductive Gives (Q : List (String × NodeId) → α → Prop) :
    List (String × NodeId) → Program α → Prop
  | done {known a} : Q known a → Gives Q known (done (.ok a))
  | fail {known e} : Gives Q known (done (.error e))
  | ask {known r next} : r.byHand = false → (∀ e, Gives Q known (next (.error e))) →
    (∀ x, r.Possible x → Gives Q (known ++ r.learnt x) (next (.ok x))) →
    Gives Q known (ask r next)

variable {Q : List (String × NodeId) → α → Prop} {R : List (String × NodeId) → β → Prop}

namespace Gives

/-- The rule for a sequence. -/
theorem bind {p : Program α} {f : α → Program β} (h : p.Gives Q known)
    (hf : ∀ known a, Q known a → (f a).Gives R known) : (p >>= f).Gives R known := by
  change (p.bind f).Gives R known
  induction h with
  | done hq => exact hf _ _ hq
  | fail => exact .fail
  | ask hr _ _ ihe ih => exact .ask hr ihe ih

/-- The rule for a request. -/
theorem request_bind {r : Request} {f : r.Answer → Program β} (hr : r.byHand = false)
    (hf : ∀ x, r.Possible x → (f x).Gives R (known ++ r.learnt x)) :
    (request r >>= f).Gives R known :=
  .ask hr (fun _ => .fail) hf

/-- The rule for a request that tells nothing about nodes. -/
theorem silent_bind {r : Request} {f : r.Answer → Program β} (hr : r.byHand = false)
    (hsilent : ∀ x, r.learnt x = []) (hf : ∀ x, r.Possible x → (f x).Gives R known) :
    (request r >>= f).Gives R known := by
  refine request_bind hr fun x hx => ?_
  rw [hsilent, List.append_nil]
  exact hf x hx

theorem act_bind {a : Cursor.Action} {f : a.Answer → Program β}
    (hf : ∀ (c : Cursor) x, (c.perform a).1 = .ok x → (f x).Gives R known) :
    (Program.act a >>= f).Gives R known :=
  silent_bind rfl (fun _ => rfl) fun x ⟨c, hc⟩ => hf c x hc

theorem seesProduction_bind {kind : String} {options : Options} {f : Bool → Program β}
    (hf : ∀ x, (f x).Gives R known) :
    (Program.seesProduction kind options >>= f).Gives R known :=
  silent_bind rfl (fun _ => rfl) fun x _ => hf x

theorem rewind_bind {id : NodeId} {f : Unit → Program β} (hf : (f ()).Gives R known) :
    (Program.rewind id >>= f).Gives R known :=
  silent_bind rfl (fun _ => rfl) fun _ _ => hf

theorem state_bind {f : Session → Program β} (hf : ∀ s, (f s).Gives R known) :
    (Program.state >>= f).Gives R known :=
  silent_bind rfl (fun _ => rfl) fun s _ => hf s

theorem parse_bind {kind : String} {options : Options} {f : NodeId → Program β}
    (hf : ∀ id, (f id).Gives R (known ++ [(kind, id)])) :
    (Program.parse kind options >>= f).Gives R known :=
  request_bind rfl fun id _ => hf id

theorem series_bind {kind : String} {options : Options} {f : List NodeId → Program β}
    (hf : ∀ ids, (f ids).Gives R (known ++ ids.map (kind, ·))) :
    (Program.series kind options >>= f).Gives R known :=
  request_bind rfl fun ids _ => hf ids

theorem commaList_bind {kind : String} {options : Options} {f : List NodeId → Program β}
    (hf : ∀ ids, (f ids).Gives R (known ++ ids.map (kind, ·))) :
    (Program.commaList kind options >>= f).Gives R known :=
  request_bind rfl fun ids _ => hf ids

theorem refuse (message : String) : (Program.fail message).Gives Q known :=
  act_bind nofun

/-- Of a natural program there is always nothing to say. -/
theorem of_natural {p : Program α} (h : p.Natural) : p.Gives (fun _ _ => True) known := by
  induction p generalizing known with
  | done result =>
    cases result with
    | error e => exact .fail
    | ok a => exact .done trivial
  | ask r next ih => exact .ask h.1 (fun e => ih _ (h.2 _)) fun x _ => ih _ (h.2 _)

end Gives
end Program

/-- The fields of a node that the program of a production gives have the shape of its kind. -/
def Production.Fitting (S : Shapes) (p : Production) : Prop :=
  ∀ options, (p.body options).Gives
    (fun known fields => ∀ t : Tree, t.Knows known → S.Fits t p.name fields) []

namespace Session

variable {α : Type} {S : Shapes} {s s' : Session} {known : List (String × NodeId)}

/-- An outcome whose tree has all the nodes there were, and every node has the shape of its kind. -/
structure Shaping (S : Shapes) (s : Session) (Q : α → Tree → Prop) (o : Outcome Session α) :
    Prop where
  keeps : s.tree.Keeps o.2.tree
  shaped : o.2.tree.Shaped S
  answer : ∀ x, o.1 = .ok x → Q x o.2.tree

variable {Q R : α → Tree → Prop} {o : Outcome Session α}

theorem Shaping.mono (h : Shaping S s Q o) (hQ : ∀ x t, Q x t → R x t) : Shaping S s R o :=
  ⟨h.keeps, h.shaped, fun x hx => hQ x _ (h.answer x hx)⟩

theorem Shaping.error {e : Failure} (h : s.tree.Keeps s'.tree) (hs : s'.tree.Shaped S) :
    Shaping S s Q (.error e, s') :=
  ⟨h, hs, nofun⟩

theorem Shaping.ok {x : α} (h : s.tree.Keeps s'.tree) (hs : s'.tree.Shaped S)
    (hx : Q x s'.tree) : Shaping S s Q (.ok x, s') := by
  refine ⟨h, hs, ?_⟩
  rintro _ ⟨⟩
  exact hx

theorem Shaping.after (h : s.tree.Keeps s'.tree) (h' : Shaping S s' Q o) : Shaping S s Q o :=
  ⟨h.trans h'.keeps, h'.shaped, h'.answer⟩

/-- A handler keeps the shapes of nodes, and the nodes it answers are of the kinds it was asked
for. -/
def ShapesAll (S : Shapes) (handle : Handler) : Prop :=
  ∀ r s, r.byHand = false → s.tree.Shaped S →
    Shaping S s (fun x t => r.Possible x ∧ t.Knows (r.learnt x)) (handle r s)

theorem ShapesAll.run {handle : Handler} (hh : ShapesAll S handle)
    {Q : List (String × NodeId) → α → Prop} {p : Program α} (hp : p.Gives Q known)
    (hs : s.tree.Shaped S) (hk : s.tree.Knows known) :
    Shaping S s (fun a t => ∃ known', t.Knows known' ∧ Q known' a) (p.run handle s) := by
  induction hp generalizing s with
  | done hq => exact .ok (.refl _) hs ⟨_, hk, hq⟩
  | fail => exact .error (.refl _) hs
  | @ask known r next hr _ _ ihe ih =>
    have hstep := hh r s hr hs
    rw [Program.run]
    rcases hanswer : handle r s with ⟨e | x, after⟩ <;> rw [hanswer] at hstep
    · exact .after hstep.keeps (ihe e hstep.shaped (hstep.keeps.knows hk))
    · obtain ⟨hpossible, hlearnt⟩ := hstep.answer x rfl
      exact .after hstep.keeps (ih x hpossible hstep.shaped
        ((hstep.keeps.knows hk).append hlearnt))

/-! ## Parses and repetitions -/

section
variable {p : Production} (hp : p.Fitting S) {inner : Option Handler}
  (hi : ∀ handle ∈ inner, ShapesAll S handle)
include hp hi

theorem shaping_parse (options : Options) (s : Session) (hs : s.tree.Shaped S) :
    Shaping S s (fun id t => t.HasKind p.name id) (p.parse inner options s) := by
  unfold Production.parse
  split
  · exact .error (.refl _) hs
  · cases inner with
    | none => exact .error (.refl _) hs
    | some handle =>
      simp only
      have hknown : s.tree.Knows [] := nofun
      have hbody : Shaping S { s with depth := s.depth + 1 } _ _ :=
        (hi handle rfl).run (hp options) hs hknown
      rcases hrun : (p.body options).run handle { s with depth := s.depth + 1 } with
        ⟨e | fields, after⟩ <;> rw [hrun] at hbody
      · exact .error hbody.keeps hbody.shaped
      · -- What the answers told of nodes still holds of the tree that the node joins.
        obtain ⟨known, hknows, hfits⟩ := hbody.answer fields rfl
        by_cases hf : after.tree.Free fields.children
        · simp only [Tree.graft_of_free hf]
          exact .ok (hbody.keeps.trans Tree.keeps_append) (hbody.shaped.append (hfits _ hknows))
            ⟨_, Tree.node?_append_new, rfl⟩
        · obtain ⟨e, he⟩ : ∃ e, after.tree.graft p.name (some s.cursor.offset) fields =
              (.error e, after.tree) := Tree.graft_of_not_free hf
          simp only [he]
          exact .error hbody.keeps hbody.shaped

end

/-- What a repetition has found is of the kind that every round finds. -/
theorem shaping_collect {round : Session → Outcome Session Round} {kind : String}
    (hround : ∀ s : Session, s.tree.Shaped S →
      Shaping S s (fun x t => ∀ id ∈ x.found, t.HasKind kind id) (round s))
    {found : List NodeId} (hfound : ∀ id ∈ found, s.tree.HasKind kind id) (hs : s.tree.Shaped S)
    (fuel : Nat) :
    Shaping S s (fun ids t => ∀ id ∈ ids, t.HasKind kind id) (collect round found fuel s) := by
  induction fuel generalizing found s with
  | zero => exact .error (.refl _) hs
  | succ fuel ih =>
    have hstep := hround s hs
    rw [collect]
    rcases hr : round s with ⟨e | x, after⟩ <;> rw [hr] at hstep
    · exact .error hstep.keeps hstep.shaped
    -- Nodes of earlier rounds keep their kinds while later rounds add to the tree.
    have hold : ∀ id ∈ found, after.tree.HasKind kind id :=
      fun id hid => hstep.keeps.hasKind (hfound id hid)
    have hall : ∀ id ∈ x.found ++ found, after.tree.HasKind kind id :=
      fun id hid => (List.mem_append.1 hid).elim (hstep.answer x rfl id) (hold id)
    cases x with
    | stop => exact .ok hstep.keeps hstep.shaped fun id hid => hall id (List.mem_reverse.1 hid)
    | last => exact .ok hstep.keeps hstep.shaped fun id hid => hall id (List.mem_reverse.1 hid)
    | next => exact .after hstep.keeps (ih hall hstep.shaped)

section
variable {g : Grammar} {p : Production} (hp : p.Fitting S) {inner : Option Handler}
  (hi : ∀ handle ∈ inner, ShapesAll S handle)
include hp hi

theorem shaping_seriesRound (options : Options) (s : Session) (hs : s.tree.Shaped S) :
    Shaping S s (fun x t => ∀ id ∈ x.found, t.HasKind p.name id)
      (g.seriesRound inner p options s) := by
  have hparse := shaping_parse hp hi options s.spaced hs
  unfold Grammar.seriesRound
  simp only
  rcases g.seesStart p options s.spaced with e | _ | _
  · exact .error (.refl _) hs
  · exact .ok (.refl _) hs fun _ hid => by cases hid
  · rcases hr : p.parse inner options s.spaced with ⟨e | id, after⟩ <;> rw [hr] at hparse
    · exact .error hparse.keeps hparse.shaped
    · simp only
      split
      · exact .error hparse.keeps hparse.shaped
      · exact .ok hparse.keeps hparse.shaped fun id' hid =>
          List.mem_singleton.1 hid ▸ hparse.answer id rfl

theorem shaping_commaRound (options : Options) (s : Session) (hs : s.tree.Shaped S) :
    Shaping S s (fun x t => ∀ id ∈ x.found, t.HasKind p.name id)
      (g.commaRound inner p options s) := by
  have hparse := shaping_parse hp hi options s.spaced hs
  unfold Grammar.commaRound
  simp only
  rcases g.seesStart p options s.spaced with e | _ | _
  · exact .error (.refl _) hs
  · exact .error (.refl _) hs
  · rcases hr : p.parse inner options s.spaced with ⟨e | id, after⟩ <;> rw [hr] at hparse
    · exact .error hparse.keeps hparse.shaped
    · have hfound : ∀ id' ∈ [id], after.tree.HasKind p.name id' := fun id' hid =>
        List.mem_singleton.1 hid ▸ hparse.answer id rfl
      simp only
      rcases after.cursor.dropSpace.take? (.literal ",") with ⟨e | _ | _, cursor⟩
      · exact .error hparse.keeps hparse.shaped
      · exact .ok hparse.keeps hparse.shaped hfound
      · exact .ok hparse.keeps hparse.shaped hfound

end

/-! ## Requests -/

section
variable {g : Grammar} (hg : ∀ p ∈ g.productions, p.Fitting S)
include hg

theorem shapesAll_answer {inner : Option Handler} (hi : ∀ handle ∈ inner, ShapesAll S handle) :
    ShapesAll S (g.answer inner) := by
  intro r s hr hs
  cases r with
  | insert | copy => cases hr
  | act a =>
    exact ⟨.refl _, hs, fun x hx => ⟨⟨s.cursor, hx⟩, List.forall_mem_nil _⟩⟩
  | sees | write | state => exact ⟨.refl _, hs, fun x hx => ⟨trivial, List.forall_mem_nil _⟩⟩
  | parse kind options =>
    simp only [Grammar.answer, Grammar.parse]
    split
    · exact .error (.refl _) hs
    next p hp =>
      obtain rfl := Grammar.name_eq_of_find hp
      refine (shaping_parse (hg p (Grammar.mem_of_find hp)) hi options s hs).mono
        fun id t hid => ⟨trivial, fun fact hf => ?_⟩
      rw [List.mem_singleton.1 hf]
      exact hid
  | series kind options =>
    simp only [Grammar.answer, Grammar.series]
    split
    · exact .error (.refl _) hs
    next p hp =>
      obtain rfl := Grammar.name_eq_of_find hp
      exact (shaping_collect (shaping_seriesRound (hg p (Grammar.mem_of_find hp)) hi options)
        (fun _ h => by cases h) hs _).mono fun ids t hids => ⟨trivial, Tree.knows_map.2 hids⟩
  | commaList kind options =>
    simp only [Grammar.answer, Grammar.commaList]
    split
    · exact .error (.refl _) hs
    next p hp =>
      obtain rfl := Grammar.name_eq_of_find hp
      exact (shaping_collect (shaping_commaRound (hg p (Grammar.mem_of_find hp)) hi options)
        (fun _ h => by cases h) hs _).mono fun ids t hids => ⟨trivial, Tree.knows_map.2 hids⟩
  | rewind id =>
    have htree : (s.rewind id).2.tree = s.tree := by
      rw [rewind]
      split
      · rfl
      · split <;> rfl
    refine ⟨?_, ?_, fun _ _ => ⟨trivial, List.forall_mem_nil _⟩⟩
    · rw [Grammar.answer, htree]
      exact .refl _
    · rw [Grammar.answer, htree]
      exact hs

theorem shapesAll_handle : ShapesAll S (handle g) := by
  intro r s
  rw [handle]
  generalize s.cursor.settings.maxDepth - s.depth = levels
  induction levels generalizing r s with
  | zero => exact shapesAll_answer hg (fun _ h => by cases h) r s
  | succ levels ih =>
    refine shapesAll_answer hg ?_ r s
    rintro _ ⟨⟩
    exact ih

end

/-- The sessions that come about from a fresh one by any requests but those that make nodes by hand,
whether they are answered or refused. -/
inductive Arises (g : Grammar) : Session → Prop
  | start {text : String} {settings : Settings} {s : Session} :
    withSettings text g settings = .ok s → Arises g s
  | request {s : Session} (r : Request) : r.byHand = false → Arises g s →
    Arises g (s.handle g r).2

variable {g : Grammar}

theorem Arises.owned (h : s.Arises g) : s.tree.Owned ∧ s.tree.kinds = g.kinds := by
  induction h with
  | start hs =>
    obtain ⟨-, -, -, -, htree⟩ := withSettings_ok hs
    rw [htree]
    exact ⟨Tree.owned_empty _, rfl⟩
  | @request s r _ _ ih =>
    obtain ⟨ho, hk⟩ := (s.grows_handle g r ih.1 ih.2).owned ih.1
    exact ⟨ho, hk.trans ih.2⟩

/-- **Every node has the shape of its kind**, if those that productions give have it. -/
theorem Arises.shaped (h : s.Arises g) (hg : ∀ p ∈ g.productions, p.Fitting S) :
    s.tree.Shaped S := by
  induction h with
  | start hs =>
    obtain ⟨-, -, -, -, htree⟩ := withSettings_ok hs
    rw [htree]
    exact Tree.shaped_empty _
  | request r hr _ ih => exact (shapesAll_handle hg r _ hr ih).shaped

end Session
end Descent
