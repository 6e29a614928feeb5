import Descent.Proofs.Session.Repetition

/-!
# Round trips

* `Reader.Sound`, `Reader.Complete`: what a reader takes is in a language, and all of the language
  is taken;
* `Reader.Restores`: what is read is read again from how it is written;
* `Session.RoundTrips`: a node that comes back from its source text, whatever the options;
* `Session.RoundTripsWith`: one that comes back with the options it was parsed with.

A reader that is sound and complete for a language restores what it reads if the source texts are in
the language. The nodes of a production that follows such a reader come back.
-/

namespace Descent

variable {α : Type} {read : Reader α} {text : α → Options → String} {Is : List Char → α → Prop}
  {Follows : List Char → Prop}

/-! ## Readers of a language -/

namespace Reader

/-- What a reader takes from a text is in a language. -/
def Sound (read : Reader α) (Is : List Char → α → Prop) : Prop :=
  ∀ ⦃cs x rest⦄, read cs = some (x, rest) → ∃ l, l ++ rest = cs ∧ Is l x

theorem Sound.shrinks (h : read.Sound Is) (hne : ∀ {l x}, Is l x → l ≠ []) : read.Shrinks := by
  intro cs x rest hread
  obtain ⟨l, rfl, hl⟩ := h hread
  have := List.length_pos_iff.2 (hne hl)
  rw [List.length_append]
  omega

theorem Sound.deeper (h : read.Sound Is) (levels : Nat) :
    (deeper levels read).Sound fun l x => Is l x ∧ 1 ≤ levels := by
  intro cs x rest hread
  cases levels with
  | zero => cases hread
  | succ levels =>
    obtain ⟨l, hl, hx⟩ := h hread
    exact ⟨l, hl, hx, Nat.succ_pos _⟩

/-- Every text of a language is taken if it is followed by a text that may follow. -/
def Complete (read : Reader α) (Is : List Char → α → Prop) (Follows : List Char → Prop) : Prop :=
  ∀ ⦃l x r⦄, Is l x → Follows r → read (l ++ r) = some (x, r)

/-- What is read is read again from how it is written, to the end. -/
def Restores (read : Reader α) (text : α → Options → String) : Prop :=
  ∀ ⦃cs x rest⦄, read cs = some (x, rest) → ∀ options, read (text x options).toList = some (x, [])

theorem Restores.intro (hsound : read.Sound Is) (hcomplete : read.Complete Is Follows)
    (hnil : Follows []) (hprinted : ∀ {l x}, Is l x → ∀ options, Is (text x options).toList x) :
    read.Restores text := by
  intro cs x rest h options
  obtain ⟨l, -, hl⟩ := hsound h
  have hread := hcomplete (hprinted hl options) hnil
  rwa [List.append_nil] at hread

theorem Restores.deeper (h : read.Restores text) (levels : Nat) :
    (deeper levels read).Restores text := by
  cases levels with
  | zero => nofun
  | succ levels => exact h

end Reader

namespace Session

variable {g : Grammar} {content kind : String} {settings : Settings} {s s' : Session} {id : NodeId}

theorem mem_kinds_of_parse {options : Options} (h : s.parse g kind options = (.ok id, s')) :
    kind ∈ g.kinds := by
  cases hp : g.find kind with
  | ok p => exact Grammar.name_eq_of_find hp ▸ Grammar.name_mem_kinds_of_find hp
  | error e =>
    unfold Session.parse handle at h
    rw [handler_eq_answer] at h
    simp only [Grammar.answer, Grammar.parse, hp] at h
    cases h

/-- Whether settings pass their check does not depend on the text. -/
theorem exists_withSettings (h : withSettings content g settings = .ok s) (written : String) :
    ∃ t, withSettings written g settings = .ok t := by
  unfold withSettings Cursor.withSettings at h ⊢
  cases hcheck : settings.check with
  | error e =>
    rw [hcheck] at h
    cases h
  | ok => exact ⟨_, rfl⟩

/-- A node comes back from how it is written: its text parses to the end, to a node that shows the
same and is written the same. -/
def RoundTrips (g : Grammar) (settings : Settings) (kind : String) (s : Session) (id : NodeId) :
    Prop :=
  ∀ render options, ∃ t id' t',
    withSettings (g.write s.tree id render) g settings = .ok t ∧
    t.parse g kind options = (.ok id', t') ∧
    t'.cursor.atEnd ∧
    t'.tree.json id' = s.tree.json id ∧
    g.write t'.tree id' render = g.write s.tree id render

/-- A node comes back from how it is written with some options, when it is parsed with the same. -/
def RoundTripsWith (g : Grammar) (settings : Settings) (kind : String) (options : Options)
    (s : Session) (id : NodeId) : Prop :=
  ∃ t id' t',
    withSettings (g.write s.tree id options) g settings = .ok t ∧
    t.parse g kind options = (.ok id', t') ∧
    t'.cursor.atEnd ∧
    t'.tree.json id' = s.tree.json id

variable {json : α → Json} {options options' : Options}

/-- A node of a production that follows a restoring reader, written with some options and parsed
with others. -/
private theorem exists_parse_written
    (hp : Parses g settings.maxDepth kind options read json text)
    (hp' : Parses g settings.maxDepth kind options' read json text) (hr : read.Restores text)
    (h : withSettings content g settings = .ok s)
    (hparse : s.parse g kind options = (.ok id, s')) (render : Options) :
    ∃ t id' t',
      withSettings (g.write s'.tree id render) g settings = .ok t ∧
      t.parse g kind options' = (.ok id', t') ∧
      t'.cursor.atEnd ∧
      t'.tree.json id' = s'.tree.json id ∧
      g.write t'.tree id' render = g.write s'.tree id render := by
  have hagrees := hp.agrees_parse h
  rw [hparse] at hagrees
  cases hread : read content.toList with
  | none =>
    rw [hread] at hagrees
    obtain ⟨_, _, ⟨⟩⟩ := hagrees
  | some result =>
    obtain ⟨x, rest⟩ := result
    rw [hread] at hagrees
    obtain ⟨_, _, ⟨⟩, hparsed⟩ := hagrees
    have hwrite := hparsed.shows.write_eq render
    obtain ⟨t, ht⟩ := exists_withSettings h (g.write s'.tree id render)
    have hagain := hp'.agrees_parse ht
    rw [hwrite, hr hread render] at hagain
    obtain ⟨id', t', hparse', hparsed'⟩ := hagain
    refine ⟨t, id', t', ht, hparse', ?_, ?_, ?_⟩
    · rw [Cursor.atEnd, hparsed'.comes.ahead]
      rfl
    · rw [hparsed'.shows.json_eq, hparsed.shows.json_eq]
    · rw [hparsed'.shows.write_eq, hwrite]

theorem roundTrips_of_restores
    (hp : ∀ options, Parses g settings.maxDepth kind options read json text)
    (hr : read.Restores text) (h : withSettings content g settings = .ok s)
    (hparse : s.parse g kind options = (.ok id, s')) : RoundTrips g settings kind s' id :=
  fun render options' => exists_parse_written (hp options) (hp options') hr h hparse render

theorem roundTripsWith_of_restores
    (hp : Parses g settings.maxDepth kind options read json text) (hr : read.Restores text)
    (h : withSettings content g settings = .ok s)
    (hparse : s.parse g kind options = (.ok id, s')) :
    RoundTripsWith g settings kind options s' id := by
  obtain ⟨t, id', t', ht, hparse', hend, hjson, -⟩ :=
    exists_parse_written hp hp hr h hparse options
  exact ⟨t, id', t', ht, hparse', hend, hjson⟩

end Session
end Descent
