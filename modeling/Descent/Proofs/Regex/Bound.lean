import Descent.Proofs.Cursor.Span
import Descent.Proofs.Regex.Enclosed

/-!
# Bound expressions

* `Regex.Bound`: an expression that matches nowhere but where its text starts.

An expression in a group after `^` is bound (`bound_concat_start`). A source is bound by writing it
into such a group, which works for what is an expression by itself (`bound_of_read?`); a source that
closes the group and goes on with another branch leaves that branch unbound
(`matches_behind_cursor`).
-/

namespace Descent

namespace Automaton

variable {a : Automaton} {before : Option Char} {cs : List Char} {m : Match}

/-- A match cuts the text it is found in. -/
theorem append_of_findFrom (h : a.findFrom before cs = some m) :
    m.skipped ++ m.matched ++ m.rest = cs := by
  induction cs generalizing before m with
  | nil =>
    unfold findFrom at h
    split at h
    · cases h
      simp
    · cases h
  | cons c cs ih =>
    unfold findFrom at h
    split at h
    · cases h
      exact List.take_append_drop ..
    · obtain ⟨m, hm, rfl⟩ := Option.map_eq_some_iff.1 h
      exact congrArg (c :: ·) (ih hm)

/-- An automaton that starts with the question whether the text does can do nothing behind a
character. -/
theorem fronts_check_start (a : Automaton) (next : Nat) (c : Char) :
    (a.add (.check .start next)).Fronts [(a.add (.check .start next)).start] (some c)
      ⟨[], false⟩ := by
  intro after
  simp [front, explore, add, Anchor.holds]

end Automaton

namespace Regex

/-- An expression that matches nowhere but where its text starts. -/
def Bound (r : Regex) : Prop :=
  ∀ cs m, r.find? cs = some m → m.skipped = []

/-- What comes after the question whether the text starts is bound. -/
theorem bound_concat_start (r : Regex) : (concat [anchor .start, r]).Bound := by
  have hautomaton : ∃ a next, (concat [anchor .start, r]).automaton =
      Automaton.add a (.check .start next) := by
    have hparts : concat [anchor .start, r] = ofParts (anchor .start :: r.parts) := by
      simp [concat, parts]
    rw [hparts]
    cases r.parts with
    | nil => exact ⟨_, _, rfl⟩
    | cons part others => exact ⟨_, _, rfl⟩
  obtain ⟨a, next, ha⟩ := hautomaton
  intro cs m hm
  rw [find?, ha] at hm
  unfold Automaton.findFrom at hm
  split at hm
  · cases hm
    rfl
  · split at hm
    · cases hm
    next c cs =>
      rw [Automaton.findFrom_eq_none (a.fronts_check_start next)] at hm
      cases hm

/-- What is read of a group after `^`, from what is read inside. -/
theorem readBranches?_bound {fuel : Nat} {cs : List Char} {branches : List Reading}
    (h : readBranches? (fuel + 2) false cs = some (branches, [')'])) :
    readBranches? (fuel + 7) false ('^' :: '(' :: '?' :: ':' :: cs) =
      some ([.together concat [.leaf (anchor .start),
        (Reading.together alternatives branches).within id]], []) := by
  have hgroup : readItems? (fuel + 4) false ('(' :: '?' :: ':' :: cs) =
      some ([(Reading.together alternatives branches).within id], false, []) := by
    rw [readItems?_flagged]
    show readGroup? (fuel + 3) false false id cs = _
    rw [readGroup?, h]
    rfl
  have hitems : readItems? (fuel + 6) false ('^' :: '(' :: '?' :: ':' :: cs) =
      some ([.leaf (anchor .start), (Reading.together alternatives branches).within id], false,
        []) := by
    rw [readItems?_atom (by decide)]
    show readRest? (fuel + 5) false (.leaf (anchor .start)) ('(' :: '?' :: ':' :: cs) = _
    rw [readRest?]
    show (readItems? (fuel + 4) false ('(' :: '?' :: ':' :: cs)).map _ = _
    rw [hgroup]
    rfl
  rw [readBranches?, hitems]
  rfl

/-- What is an expression by itself is bound as a whole by a group after `^`. -/
theorem bound_of_read? {cs : List Char} {r : Regex} (hcs : (read? cs).isSome)
    (hr : read? (['^', '(', '?', ':'] ++ cs ++ [')']) = some r) : r.Bound := by
  obtain ⟨_, halone⟩ := Option.isSome_iff_exists.1 hcs
  unfold read? at halone hr
  have hfuel : 3 * (['^', '(', '?', ':'] ++ cs ++ [')']).length + 3 = 3 * cs.length + 11 + 7 := by
    simp only [List.length_append, List.length_cons, List.length_nil]
    omega
  rw [hfuel] at hr
  split at halone
  next branches hbranches =>
    have hmore : 3 * cs.length + 3 ≤ 3 * cs.length + 13 := by omega
    obtain ⟨⟨branches', _⟩, hinside, rfl⟩ :=
      ((closes _).branches hmore false cs).carries _ hbranches
    have hcons : ['^', '(', '?', ':'] ++ cs ++ [')'] =
        '^' :: '(' :: '?' :: ':' :: (cs ++ [')']) := rfl
    rw [hcons, readBranches?_bound hinside] at hr
    simp only at hr
    split at hr
    · cases hr
      exact bound_concat_start (Reading.together alternatives branches').regex
    · cases hr
  · cases halone

end Regex

namespace BoundRegex

variable {b : BoundRegex}

theorem bound_of_ofSource {source : String} (hsource : (Regex.read? source.toList).isSome)
    (hb : ofSource source = .ok b) : b.regex.Bound := by
  unfold ofSource at hb
  split at hb
  next r hr =>
    cases hb
    exact Regex.bound_of_read? hsource hr
  · cases hb

/-- The pattern of a source, from what is read of the group around it. -/
theorem ofSource_of_read? {source : String} {r : Regex}
    (h : Regex.read? (['^', '(', '?', ':'] ++ source.toList ++ [')']) = some r) :
    ofSource source = .ok ⟨source, r⟩ := by
  rw [ofSource, h]

theorem size?_regex (b : BoundRegex) (cs : List Char) : (Pattern.regex b).size? cs =
    .ok ((b.extent? cs).map fun n => Text.size (cs.take n)) :=
  rfl

/-- The extent of a bound expression is that of a match at the front of the text. -/
theorem exists_match_of_extent? (h : b.regex.Bound) {cs : List Char} {n : Nat}
    (hn : b.extent? cs = some n) :
    ∃ m, b.regex.find? cs = some m ∧ m.skipped = [] ∧ m.matched ++ m.rest = cs ∧
      m.matched.length = n := by
  obtain ⟨m, hm, rfl⟩ := Option.map_eq_some_iff.1 hn
  have hskipped := h cs m hm
  have hcut := Automaton.append_of_findFrom hm
  refine ⟨m, hm, hskipped, ?_, ?_⟩
  · rw [← hcut, hskipped, List.nil_append]
  · rw [Match.stop, hskipped, List.length_nil, Nat.zero_add]

/-- **Patterns match at the cursor.** Of a source that is a regular expression by itself, every
match that the pattern finds starts where the text does and ends at the extent of the pattern; so
taking the pattern never passes over text that is not part of the match. -/
theorem matches_at_cursor {source : String} (hsource : (Regex.read? source.toList).isSome)
    (hb : ofSource source = .ok b) :
    (∀ cs n, (Pattern.regex b).size? cs = .ok (some n) →
      ∃ m, b.regex.find? cs = some m ∧ m.skipped = [] ∧ m.matched ++ m.rest = cs ∧
        Text.size m.matched = n) ∧
    ∀ (c : Cursor) taken c', c.take? (.regex b) = (.ok (some taken), c') →
      ∃ m, b.regex.find? c.ahead = some m ∧ m.skipped = [] ∧ taken = String.ofList m.matched ∧
        c'.behind = m.matched.reverse ++ c.behind ∧ c'.ahead = m.rest := by
  have hbound := bound_of_ofSource hsource hb
  constructor
  · intro cs n hn
    rw [size?_regex, Except.ok.injEq] at hn
    obtain ⟨n, hextent, rfl⟩ := Option.map_eq_some_iff.1 hn
    obtain ⟨m, hm, hskipped, rfl, rfl⟩ := exists_match_of_extent? hbound hextent
    exact ⟨m, hm, hskipped, rfl, by rw [List.take_left]⟩
  · intro c taken c' h
    unfold Cursor.take? Pattern.extent? at h
    simp only at h
    cases hextent : b.extent? c.ahead with
    | none =>
      rw [hextent] at h
      cases h
    | some n =>
      rw [hextent] at h
      cases h
      obtain ⟨m, hm, hskipped, hcut, rfl⟩ := exists_match_of_extent? hbound hextent
      refine ⟨m, hm, hskipped, ?_, ?_, ?_⟩
      · rw [← hcut, List.take_left]
      · simp [Cursor.forward, Cursor.place, ← hcut]
      · simp [Cursor.forward, Cursor.place, ← hcut]

theorem matches_at_cursor_branches :
    ∃ b, (Regex.read? "a|ab".toList).isSome ∧ ofSource "a|ab" = .ok b ∧
      (Pattern.regex b).size? ['x', 'a', 'b'] = .ok none ∧
      (Pattern.regex b).size? ['a', 'b'] = .ok (some 1) ∧
      ∃ m, b.regex.find? ['a', 'b'] = some m ∧ m.skipped = [] ∧ m.matched ++ m.rest = ['a', 'b'] ∧
        Text.size m.matched = 1 := by
  let a : Regex := .char (.single 'a')
  let b : BoundRegex :=
    ⟨"a|ab", .seq (.anchor .start) (.alt a (.seq a (.char (.single 'b'))))⟩
  have hsource : (Regex.read? "a|ab".toList).isSome := by decide +kernel
  have hb : ofSource "a|ab" = .ok b := ofSource_of_read? (by decide +kernel)
  have hnone : (Pattern.regex b).size? ['x', 'a', 'b'] = .ok none :=
    congrArg Except.ok (by decide +kernel)
  have hsome : (Pattern.regex b).size? ['a', 'b'] = .ok (some 1) :=
    congrArg Except.ok (by decide +kernel)
  exact ⟨b, hsource, hb, hnone, hsome, (matches_at_cursor hsource hb).1 _ _ hsome⟩

/-- A source that closes the group around it: its second branch is not bound. -/
theorem matches_behind_cursor :
    ∃ b, ofSource "a)|(b" = .ok b ∧ (Pattern.regex b).size? ['x', 'b'] = .ok (some 2) ∧
      b.regex.find? ['x', 'b'] = some ⟨['x'], ['b'], []⟩ := by
  let b : BoundRegex :=
    ⟨"a)|(b", .alt (.seq (.anchor .start) (.char (.single 'a'))) (.group 2 (.char (.single 'b')))⟩
  have hb : ofSource "a)|(b" = .ok b := ofSource_of_read? (by decide +kernel)
  exact ⟨b, hb, congrArg Except.ok (by decide +kernel), by decide +kernel⟩

end BoundRegex
end Descent
