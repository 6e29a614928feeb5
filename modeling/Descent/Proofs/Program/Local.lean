import Descent.Grammar
import Descent.Proofs.Cursor.Local
import Descent.Proofs.Tree.Shift

/-!
# Local programs

* `Request.Corresponds`: requests that do the same with what is ahead, though one of them is about
  nodes so many places further on;
* `Program.Local`: two programs that make such requests;
* `Production.Local`: productions whose programs are local.

A local program passes every failure on. It makes no node by hand, and it goes back to nodes of its
own only.
-/

namespace Descent

/-- Two requests correspond if what they ask for does not depend on where in a text the session
stands, and the second gets every node `d` places further on. Their answers then stand in the given
relation, together with the nodes that are new in the first one. The nodes in `ids` were new
before. -/
inductive Request.Corresponds (d : Nat) (ids : List NodeId) :
    (r r' : Request) → (r.Answer → r'.Answer → List NodeId → Prop) → Prop
  | act {a : Cursor.Action} : a.isLocal →
    Corresponds d ids (.act a) (.act a) fun x x' new => x = x' ∧ new = []
  | sees (p : Pattern) (options : Options) :
    Corresponds d ids (.sees p options) (.sees p options) fun x x' new => x = x' ∧ new = []
  | parse (kind : String) (options : Options) :
    Corresponds d ids (.parse kind options) (.parse kind options)
      fun id id' new => id' = id.shift d ∧ new = [id]
  | series (kind : String) (options : Options) :
    Corresponds d ids (.series kind options) (.series kind options)
      fun found found' new => found' = found.map (NodeId.shift d) ∧ new = found
  | commaList (kind : String) (options : Options) :
    Corresponds d ids (.commaList kind options) (.commaList kind options)
      fun found found' new => found' = found.map (NodeId.shift d) ∧ new = found
  | rewind {id : NodeId} : id ∈ ids →
    Corresponds d ids (.rewind id) (.rewind (id.shift d)) fun _ _ new => new = []
  | state :
    Corresponds d ids .state .state fun s s' new => s.cursor.ahead = s'.cursor.ahead ∧ new = []

/-- Every answer to the first of two requests that correspond goes with one to the second. -/
theorem Request.Corresponds.exists_answer {d : Nat} {ids : List NodeId} {r r' : Request}
    {A : r.Answer → r'.Answer → List NodeId → Prop} (h : Request.Corresponds d ids r r' A)
    (x : r.Answer) : ∃ x' new, A x x' new := by
  cases h with
  | act | sees | state => exact ⟨x, [], rfl, rfl⟩
  | parse | series | commaList => exact ⟨_, _, rfl, rfl⟩
  | rewind => exact ⟨(), [], rfl⟩

namespace Program

variable {α β : Type} {d : Nat} {ids : List NodeId}

/-- Two programs make requests that correspond and pass failures on. The list holds the nodes that
are new so far, and `Q` is about these and both results. -/
inductive Local (d : Nat) (Q : List NodeId → α → α → Prop) :
    List NodeId → Program α → Program α → Prop
  | done {ids a a'} : Q ids a a' → Local d Q ids (done (.ok a)) (done (.ok a'))
  | ask {ids r r' A next next'} : Request.Corresponds d ids r r' A →
    (∀ e, next (.error e) = Program.done (.error e)) →
    (∀ e, next' (.error e) = Program.done (.error e)) →
    (∀ {x x' new}, A x x' new → Local d Q (ids ++ new) (next (.ok x)) (next' (.ok x'))) →
    Local d Q ids (ask r next) (ask r' next')

variable {Q : List NodeId → α → α → Prop} {R : List NodeId → β → β → Prop}

namespace Local

/-- The rule for a sequence. -/
theorem bind {p p' : Program α} {f f' : α → Program β} (h : Local d Q ids p p')
    (hf : ∀ ids a a', Q ids a a' → Local d R ids (f a) (f' a')) :
    Local d R ids (p >>= f) (p' >>= f') := by
  change Local d R ids (p.bind f) (p'.bind f')
  induction h with
  | done hq => exact hf _ _ _ hq
  | ask hr he he' _ ih =>
    refine .ask hr (fun e => ?_) (fun e => ?_) ih
    · rw [he]
      rfl
    · rw [he']
      rfl

/-- The rule for a request. -/
theorem request_bind {r r' : Request} {A : r.Answer → r'.Answer → List NodeId → Prop}
    {f : r.Answer → Program β} {f' : r'.Answer → Program β} (hr : Request.Corresponds d ids r r' A)
    (hf : ∀ {x x' new}, A x x' new → Local d R (ids ++ new) (f x) (f' x')) :
    Local d R ids (request r >>= f) (request r' >>= f') :=
  .ask hr (fun _ => rfl) (fun _ => rfl) hf

theorem act_bind {a : Cursor.Action} {f f' : a.Answer → Program β} (ha : a.isLocal)
    (hf : ∀ x, Local d R ids (f x) (f' x)) :
    Local d R ids (Program.act a >>= f) (Program.act a >>= f') := by
  refine request_bind (.act ha) ?_
  rintro x _ _ ⟨rfl, rfl⟩
  rw [List.append_nil]
  exact hf x

theorem seesProduction_bind {kind : String} {options : Options} {f f' : Bool → Program β}
    (hf : ∀ x, Local d R ids (f x) (f' x)) :
    Local d R ids (Program.seesProduction kind options >>= f)
      (Program.seesProduction kind options >>= f') := by
  refine request_bind (.sees _ _) ?_
  rintro x _ _ ⟨rfl, rfl⟩
  rw [List.append_nil]
  exact hf x

theorem parse_bind {kind : String} {options : Options} {f f' : NodeId → Program β}
    (hf : ∀ id, Local d R (ids ++ [id]) (f id) (f' (id.shift d))) :
    Local d R ids (Program.parse kind options >>= f) (Program.parse kind options >>= f') := by
  refine request_bind (.parse kind options) ?_
  rintro id _ _ ⟨rfl, rfl⟩
  exact hf id

theorem series_bind {kind : String} {options : Options} {f f' : List NodeId → Program β}
    (hf : ∀ found, Local d R (ids ++ found) (f found) (f' (found.map (NodeId.shift d)))) :
    Local d R ids (Program.series kind options >>= f) (Program.series kind options >>= f') := by
  refine request_bind (.series kind options) ?_
  rintro _ _ found ⟨rfl, rfl⟩
  exact hf found

theorem commaList_bind {kind : String} {options : Options} {f f' : List NodeId → Program β}
    (hf : ∀ found, Local d R (ids ++ found) (f found) (f' (found.map (NodeId.shift d)))) :
    Local d R ids (Program.commaList kind options >>= f)
      (Program.commaList kind options >>= f') := by
  refine request_bind (.commaList kind options) ?_
  rintro _ _ found ⟨rfl, rfl⟩
  exact hf found

theorem rewind_bind {id : NodeId} {f f' : Unit → Program β} (hid : id ∈ ids)
    (hf : Local d R ids (f ()) (f' ())) :
    Local d R ids (Program.rewind id >>= f) (Program.rewind (id.shift d) >>= f') := by
  refine request_bind (.rewind hid) ?_
  rintro _ _ _ rfl
  rw [List.append_nil]
  exact hf

theorem state_bind {f f' : Session → Program β}
    (hf : ∀ s s' : Session, s.cursor.ahead = s'.cursor.ahead → Local d R ids (f s) (f' s')) :
    Local d R ids (Program.state >>= f) (Program.state >>= f') := by
  refine request_bind .state ?_
  rintro s s' _ ⟨hahead, rfl⟩
  rw [List.append_nil]
  exact hf s s' hahead

theorem fail (message : String) : Local d Q ids (Program.fail message) (Program.fail message) :=
  act_bind (a := .fail message) rfl nofun

end Local
end Program

/-- Whether a request adds nodes that are not parsed. -/
def Request.byHand : Request → Bool
  | insert .. | copy _ => true
  | _ => false

/-- A program never adds nodes that are not parsed. -/
def Program.Natural {α : Type} : Program α → Prop
  | done _ => True
  | ask r next => r.byHand = false ∧ ∀ answer, (next answer).Natural

theorem Program.Local.natural {α : Type} {d : Nat} {Q : List NodeId → α → α → Prop}
    {ids : List NodeId} {p p' : Program α} (h : p.Local d Q ids p') : p.Natural := by
  induction h with
  | done => trivial
  | @ask ids r r' A next next' hr he _ _ ih =>
    refine ⟨by cases hr <;> rfl, fun answer => ?_⟩
    cases answer with
    | error e =>
      rw [he]
      trivial
    | ok x =>
      obtain ⟨x', new, hx⟩ := hr.exists_answer x
      exact ih hx

/-- What every request of a natural program keeps is kept by the program. -/
theorem Program.Natural.run {α : Type} {P : Session → Prop} {handle : Handler}
    (keep : ∀ {r s}, r.byHand = false → P s → P (handle r s).2) {p : Program α} (h : p.Natural)
    {s : Session} (hs : P s) : P (p.run handle s).2 := by
  induction p generalizing s with
  | done => exact hs
  | ask r next ih => exact ih _ (h.2 _) (keep h.1 hs)

/-- The fields of a node, and the same fields with nodes `d` places further on. Their children are
some of the given nodes. -/
def Fields.Follow (d : Nat) (ids : List NodeId) (fields fields' : Fields) : Prop :=
  fields' = fields.shift d ∧ fields.children.Sublist ids

/-- A production that does not depend on where it is in a text: whether it is at the cursor is known
from what is ahead, and its program is local. -/
structure Production.Local (p : Production) : Prop where
  starts_eq : ∀ {sees s s' options}, s.cursor.ahead = s'.cursor.ahead →
    p.starts sees s options = p.starts sees s' options
  /-- Looking for the production fails only where looking for a pattern does. -/
  starts_error : ∀ {sees s options e}, p.starts sees s options = .error e →
    (∃ q, s.cursor.sees q = .error e) ∨ ∃ q options', sees q options' = .error e
  body : ∀ d options, (p.body options).Local d (Fields.Follow d) [] (p.body options)

namespace Production.Local

variable {p : Production}
  (body : ∀ d options, (p.body options).Local d (Fields.Follow d) [] (p.body options))
include body

/-- A production that is at the cursor if a word is. -/
theorem of_seesWord {expected : Option String}
    (hstarts : ∀ sees s options, p.starts sees s options = .ok (s.cursor.seesWord expected).1) :
    p.Local where
  starts_eq h := by rw [hstarts, hstarts, Cursor.seesWord_congr h]
  starts_error h := by
    rw [hstarts] at h
    cases h
  body := body

/-- A production that is at the cursor if a pattern is. -/
theorem of_sees (q : Pattern)
    (hstarts : ∀ sees s options, p.starts sees s options = s.cursor.sees q) : p.Local where
  starts_eq h := by rw [hstarts, hstarts, Cursor.sees_congr h]
  starts_error h := .inl ⟨q, (hstarts ..).symm.trans h⟩
  body := body

end Production.Local
end Descent
