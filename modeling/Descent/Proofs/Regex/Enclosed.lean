import Descent.Pattern

/-!
# Expressions in a group

* `Regex.Carries`: whatever one reading comes to, another comes to something related;
* `Regex.Enclosed`: results whose rests differ by a closing parenthesis;
* `Regex.ClassesClose`, `Regex.Closes`: the readers of classes and of expressions, with some fuel.

What is an expression by itself is one in a group as well: a reader that comes to a result on a text
comes to one on the text with a closing parenthesis behind it, which it leaves unread (`closes`).
The results need not be the same, for groups are told apart by what is behind them. A reader may
look ahead, but never takes a parenthesis for something else than the end of the text.
-/

namespace Descent.Regex

variable {α β γ δ : Type}

/-- Whatever one reading comes to, another comes to something that is related. -/
structure Carries (R : α → β → Prop) (x : Option α) (y : Option β) : Prop where
  carries : ∀ a ∈ x, ∃ b ∈ y, R a b

namespace Carries

variable {R : α → β → Prop} {S : γ → δ → Prop} {x : Option α} {y : Option β}

theorem bind {f : α → Option γ} {g : β → Option δ} (h : Carries R x y)
    (hf : ∀ a b, R a b → Carries S (f a) (g b)) : Carries S (x.bind f) (y.bind g) where
  carries c hc := by
    obtain ⟨a, ha, hc⟩ := Option.bind_eq_some_iff.1 hc
    obtain ⟨b, hb, hab⟩ := h.carries a ha
    obtain ⟨d, hd, hcd⟩ := (hf a b hab).carries c hc
    exact ⟨d, Option.bind_eq_some_iff.2 ⟨b, hb, hd⟩, hcd⟩

theorem map {f : α → γ} {g : β → δ} (h : Carries R x y) (hf : ∀ a b, R a b → S (f a) (g b)) :
    Carries S (x.map f) (y.map g) where
  carries c hc := by
    obtain ⟨a, ha, rfl⟩ := Option.map_eq_some_iff.1 hc
    obtain ⟨b, hb, hab⟩ := h.carries a ha
    exact ⟨g b, Option.map_eq_some_iff.2 ⟨b, hb, rfl⟩, hf a b hab⟩

theorem some {a : α} {b : β} (h : R a b) : Carries R (some a) (some b) where
  carries := by
    rintro _ ⟨⟩
    exact ⟨b, rfl, h⟩

theorem none : Carries R none y := ⟨nofun⟩

end Carries

/-! ## A closing parenthesis -/

/-- A result whose rest ends with a parenthesis that the rest of another does not have. -/
def Enclosed (a : α × List Char) (b : β × List Char) : Prop :=
  b.2 = a.2 ++ [')']

/-- The same, where what has been read is the same too. -/
def Kept (a b : α × List Char) : Prop :=
  b = (a.1, a.2 ++ [')'])

section
variable {p : Char → Bool} (hp : p ')' = false) (cs : List Char)
include hp

theorem takeWhile_close : (cs ++ [')']).takeWhile p = cs.takeWhile p := by
  induction cs with
  | nil => simp [hp]
  | cons c cs ih => cases hc : p c <;> simp [hc, ih]

theorem dropWhile_close : (cs ++ [')']).dropWhile p = cs.dropWhile p ++ [')'] := by
  induction cs with
  | nil => simp [hp]
  | cons c cs ih => cases hc : p c <;> simp [hc, ih]

end

/-- What does not begin with a character does not with a closing parenthesis behind it. -/
theorem close_ne_cons {c : Char} {cs : List Char} (h : ∀ r, cs = c :: r → False) (hc : c ≠ ')')
    (r : List Char) : cs ++ [')'] ≠ c :: r := by
  cases cs with
  | nil =>
    rintro ⟨⟩
    exact hc rfl
  | cons d cs =>
    rintro ⟨⟩
    exact h _ rfl

/-! ## Classes -/

theorem readItem?_close {b} {cs r : List Char} (h : readItem? cs = some (b, r)) :
    readItem? (cs ++ [')']) = some (b, r ++ [')']) := by
  rcases cs with _ | ⟨c, cs⟩
  · cases h
  by_cases hc : c = '\\'
  · subst hc
    rcases cs with _ | ⟨d, cs⟩
    · cases h
    obtain ⟨item, hitem, h⟩ := Option.map_eq_some_iff.1 h
    cases h
    rw [List.cons_append, List.cons_append, readItem?, hitem]
    rfl
  · have hitem (cs : List Char) : readItem? (c :: cs) = some (.single c, cs) := by
      rw [readItem?]
      · exact fun _ _ h => absurd h hc
      · exact fun h => absurd h hc
    rw [hitem] at h
    cases h
    exact hitem _

theorem readRange?_close {b} {cs r : List Char} (h : readRange? cs = some (b, r)) :
    readRange? (cs ++ [')']) = some (b, r ++ [')']) := by
  unfold readRange? at h ⊢
  obtain ⟨⟨item, cs⟩, hitem, h⟩ := Option.bind_eq_some_iff.1 h
  rw [readItem?_close hitem]
  simp only [Option.bind_some] at h ⊢
  split at h
  · cases h
    rfl
  · cases h
    rfl
  next cs h₁ h₂ =>
    have h₁ := close_ne_cons h₁ (by decide)
    have h₂ := close_ne_cons h₂ (by decide)
    obtain ⟨⟨high, cs⟩, hhigh, h⟩ := Option.bind_eq_some_iff.1 h
    simp only [List.cons_append, readItem?_close hhigh, Option.bind_some]
    rcases item with low | set <;> rcases high with high | set' <;> simp only [reduceCtorEq] at h ⊢
    split at h <;> cases h
    exact if_pos ‹_›
  next h₁ h₂ h₃ =>
    cases h
    have h₃ := close_ne_cons h₃ (by decide)
    split
    next h => exact absurd h (h₃ _)
    next h => exact absurd h (h₃ _)
    next h => exact absurd h (h₃ _)
    · rfl

/-- A named class after the sign that negates it. -/
def namedAfter? (negated : Bool) (cs : List Char) : Option (CharSet × List Char) :=
  match cs.dropWhile (· != ':') with
  | ':' :: ']' :: rest =>
    (namedRanges? (cs.takeWhile (· != ':'))).map fun ranges =>
      let set := CharSet.unionOf (ranges.map fun (low, high) => .range low high)
      (if negated then set.complement else set, rest)
  | _ => none

theorem namedAfter?_close (negated : Bool) (cs : List Char) :
    namedAfter? negated (cs ++ [')']) =
      (namedAfter? negated cs).map fun (set, rest) => (set, rest ++ [')']) := by
  unfold namedAfter?
  rw [List.dropWhile_append, List.takeWhile_append]
  have hsplit := congrArg List.length (List.takeWhile_append_dropWhile (p := (· != ':')) (l := cs))
  rw [List.length_append] at hsplit
  rcases hrest : cs.dropWhile (· != ':') with _ | ⟨c, rest⟩
  · rfl
  rw [hrest, List.length_cons] at hsplit
  rw [if_neg (by simp), if_neg (by omega), List.cons_append]
  by_cases hc : c = ':'
  · subst hc
    rcases rest with _ | ⟨d, rest⟩
    · rfl
    by_cases hd : d = ']'
    · subst hd
      simp only [List.cons_append, Option.map_map]
      rfl
    · split
      next h => exact absurd (List.cons.inj (List.cons.inj h).2).1 hd
      · split
        next h => exact absurd (List.cons.inj (List.cons.inj h).2).1 hd
        · rfl
  · split
    next h => exact absurd (List.cons.inj h).1 hc
    · split
      next h => exact absurd (List.cons.inj h).1 hc
      · rfl

theorem readNamed?_close (cs : List Char) :
    readNamed? (cs ++ [')']) = (readNamed? cs).map fun (set, rest) => (set, rest ++ [')']) := by
  rcases cs with _ | ⟨c, cs⟩
  · rfl
  by_cases hc : c = '^'
  · subst hc
    exact namedAfter?_close true cs
  · have hplain (cs : List Char) : readNamed? (c :: cs) = namedAfter? false (c :: cs) := by
      unfold readNamed?
      split
      next hsign =>
        split at hsign
        next h => exact absurd (List.cons.inj h).1 hc
        · cases hsign
          rfl
    rw [List.cons_append, hplain, hplain]
    exact namedAfter?_close false (c :: cs)

/-- The characters that are literal because they come first in a class, and what is to be read after
them. -/
def literalFront (cs : List Char) : List Char × List Char :=
  match cs.takeWhile (· == '-'), cs.dropWhile (· == '-') with
  | [], ']' :: cs => ([']'], cs)
  | hyphens, cs => (hyphens, cs)

/-- A class after the sign that negates it. -/
def classAfter? (fuel : Nat) (negated : Bool) (cs : List Char) : Option (ClassPart × List Char) :=
  (readParts? fuel id ((literalFront cs).1.map fun c => ⟨.single c, 0⟩) (literalFront cs).2).map
    fun (part, rest) => (⟨if negated then part.set.complement else part.set, part.depth + 1⟩, rest)

theorem literalFront_close (cs : List Char) :
    literalFront (cs ++ [')']) = ((literalFront cs).1, (literalFront cs).2 ++ [')']) := by
  have htake := takeWhile_close (p := (· == '-')) (by decide) cs
  have hdrop := dropWhile_close (p := (· == '-')) (by decide) cs
  unfold literalFront
  rw [htake, hdrop]
  rcases cs.takeWhile (· == '-') with _ | ⟨c, hyphens⟩
  · rcases cs.dropWhile (· == '-') with _ | ⟨c, cs⟩
    · rfl
    by_cases hc : c = ']'
    · subst hc
      rfl
    · split
      next h => exact absurd (List.cons.inj h).1 hc
      · split
        next h => exact absurd (List.cons.inj h).1 hc
        · rfl
  · rfl

theorem readClass?_caret (fuel : Nat) (cs : List Char) :
    readClass? (fuel + 1) ('^' :: cs) = classAfter? fuel true cs := by
  rw [readClass?]
  rfl

theorem readClass?_plain {cs : List Char} (h : ∀ r, cs ≠ '^' :: r) (fuel : Nat) :
    readClass? (fuel + 1) cs = classAfter? fuel false cs := by
  rw [readClass?]
  · rfl
  · exact h

/-- Both readers of classes, with as much fuel or more. -/
structure ClassesClose (fuel : Nat) : Prop where
  classes : ∀ {fuel'}, fuel ≤ fuel' → ∀ cs,
    Carries Enclosed (readClass? fuel cs) (readClass? fuel' (cs ++ [')']))
  parts : ∀ {fuel'}, fuel ≤ fuel' → ∀ finish finish' parts parts' cs,
    Carries Enclosed (readParts? fuel finish parts cs)
      (readParts? fuel' finish' parts' (cs ++ [')']))

variable {fuel fuel' : Nat}

theorem ClassesClose.classAfter? (h : ClassesClose fuel) (hle : fuel ≤ fuel') (negated : Bool)
    (cs : List Char) :
    Carries Enclosed (classAfter? fuel negated cs) (classAfter? fuel' negated (cs ++ [')'])) := by
  rw [Regex.classAfter?, Regex.classAfter?, literalFront_close]
  exact (h.parts hle _ _ _ _ _).map fun _ _ h => h

theorem ClassesClose.readClass? (h : ClassesClose fuel) (hle : fuel ≤ fuel') (cs : List Char) :
    Carries Enclosed (readClass? (fuel + 1) cs) (readClass? (fuel' + 1) (cs ++ [')'])) := by
  by_cases hcaret : ∃ r, cs = '^' :: r
  · obtain ⟨r, rfl⟩ := hcaret
    rw [List.cons_append, readClass?_caret, readClass?_caret]
    exact h.classAfter? hle true r
  · have hplain : ∀ r, cs = '^' :: r → False := fun r hr => hcaret ⟨r, hr⟩
    rw [readClass?_plain hplain, readClass?_plain (close_ne_cons hplain (by decide))]
    exact h.classAfter? hle false cs

theorem carries_readRange? (cs : List Char) :
    Carries Enclosed (readRange? cs) (readRange? (cs ++ [')'])) :=
  ⟨fun _ h => ⟨_, readRange?_close h, rfl⟩⟩

theorem operation?_close (c : Char) (cs : List Char) :
    (cs ++ [')']).head?.bind (operation? c) = cs.head?.bind (operation? c) := by
  cases cs with
  | nil =>
    show operation? c ')' = none
    unfold operation?
    split <;> first | rfl | contradiction
  | cons d cs => rfl

/-- The named class that a bracket may open. -/
def namedClass? : List Char → Option (CharSet × List Char)
  | ':' :: cs => readNamed? cs
  | _ => none

theorem namedClass?_close (cs : List Char) :
    namedClass? (cs ++ [')']) = (namedClass? cs).map fun (set, rest) => (set, rest ++ [')']) := by
  by_cases hcolon : ∃ r, cs = ':' :: r
  · obtain ⟨r, rfl⟩ := hcolon
    exact readNamed?_close r
  · have hplain : ∀ r, cs = ':' :: r → False := fun r hr => hcolon ⟨r, hr⟩
    rw [namedClass?, namedClass?]
    · rfl
    · exact hplain
    · exact close_ne_cons hplain (by decide)

theorem readParts?_bracket (finish : ClassPart → ClassPart) (parts : List ClassPart)
    (cs : List Char) : readParts? (fuel + 1) finish parts ('[' :: cs) =
      match namedClass? cs with
      | some (set, rest) => readParts? fuel finish (⟨set, 0⟩ :: parts) rest
      | none =>
        (readClass? fuel cs).bind fun (part, rest) => readParts? fuel finish (part :: parts) rest :=
  rfl

theorem readParts?_item {c : Char} (hclose : c ≠ ']') (hopen : c ≠ '[')
    (finish : ClassPart → ClassPart) (parts : List ClassPart) (cs : List Char) :
    readParts? (fuel + 1) finish parts (c :: cs) =
      match cs.head?.bind (operation? c) with
      | some operation =>
        readParts? fuel (ClassPart.joined operation (finish (.together parts))) [] cs.tail
      | none =>
        (readRange? (c :: cs)).bind fun (set, rest) =>
          readParts? fuel finish (⟨set, 0⟩ :: parts) rest := by
  rw [readParts?] <;> first | rfl | exact hclose | exact hopen

theorem ClassesClose.readParts? (h : ClassesClose fuel) (hle : fuel ≤ fuel')
    (finish finish' : ClassPart → ClassPart) (parts parts' : List ClassPart) (cs : List Char) :
    Carries Enclosed (readParts? (fuel + 1) finish parts cs)
      (readParts? (fuel' + 1) finish' parts' (cs ++ [')'])) := by
  rcases cs with _ | ⟨c, cs⟩
  · exact .none
  rw [List.cons_append]
  by_cases hclose : c = ']'
  · subst hclose
    rw [Regex.readParts?, Regex.readParts?]
    exact .some rfl
  by_cases hopen : c = '['
  · subst hopen
    rw [readParts?_bracket, readParts?_bracket, namedClass?_close]
    rcases namedClass? cs with _ | ⟨set, rest⟩
    · refine (h.classes hle cs).bind ?_
      rintro ⟨part, rest⟩ ⟨part', _⟩ rfl
      exact h.parts hle _ _ _ _ _
    · exact h.parts hle _ _ _ _ _
  · rw [readParts?_item hclose hopen, readParts?_item hclose hopen, operation?_close]
    rcases hoperation : cs.head?.bind (operation? c) with _ | operation
    · refine (carries_readRange? (c :: cs)).bind ?_
      rintro ⟨set, rest⟩ ⟨set', _⟩ rfl
      exact h.parts hle _ _ _ _ _
    · cases cs with
      | nil => cases hoperation
      | cons d cs => exact h.parts hle _ _ _ _ _

/-- Classes are read with a closing parenthesis behind them as without: what is read next depends on
what is unread, not on the parts so far. -/
theorem classesClose (fuel : Nat) : ClassesClose fuel := by
  induction fuel with
  | zero => exact ⟨fun _ _ => .none, fun _ _ _ _ _ _ => .none⟩
  | succ fuel ih =>
    refine ⟨@fun fuel' hle cs => ?_, @fun fuel' hle _ _ _ _ cs => ?_⟩
    all_goals obtain ⟨fuel', rfl⟩ : ∃ n, fuel' = n + 1 := ⟨fuel' - 1, by omega⟩
    · exact ih.readClass? (Nat.le_of_succ_le_succ hle) cs
    · exact ih.readParts? (Nat.le_of_succ_le_succ hle) _ _ _ _ cs

/-! ## Operators -/

theorem readCount?_close (cs : List Char) :
    readCount? (cs ++ [')']) = (readCount? cs).map fun (n, rest) => (n, rest ++ [')']) := by
  have hdigit (cs : List Char) := dropWhile_close (p := fun c => (Text.digit? c).isSome) rfl cs
  have hdigit' (cs : List Char) := takeWhile_close (p := fun c => (Text.digit? c).isSome) rfl cs
  unfold readCount?
  simp only [dropWhile_close (p := Text.isSpace) rfl, hdigit, hdigit', Option.map_map]
  rfl

theorem readBounds?_close {b} {cs r : List Char} (h : readBounds? cs = some (b, r)) :
    readBounds? (cs ++ [')']) = some (b, r ++ [')']) := by
  unfold readBounds? at h ⊢
  rw [readCount?_close]
  obtain ⟨⟨least, cs⟩, hcount, h⟩ := Option.bind_eq_some_iff.1 h
  rw [hcount]
  simp only [Option.map_some, Option.bind_some] at h ⊢
  split at h
  · cases h
    rfl
  · cases h
    rfl
  next cs hne =>
    have hclose := close_ne_cons hne (by decide)
    obtain ⟨⟨greatest, cs⟩, hcount', h⟩ := Option.bind_eq_some_iff.1 h
    simp only [List.cons_append, readCount?_close, hcount', Option.map_some, Option.bind_some]
    split at h
    next hcs =>
      split at h <;> cases h
      simp only at hcs
      subst hcs
      exact if_pos ‹_›
    · cases h
  · cases h

theorem readOperator?_close {b} {cs r : List Char} (h : readOperator? cs = some (b, r)) :
    readOperator? (cs ++ [')']) = some (b, r ++ [')']) := by
  unfold readOperator? at h
  split at h
  · cases h
    rfl
  · cases h
    rfl
  · cases h
    rfl
  next cs =>
    obtain ⟨⟨bounds, cs⟩, hbounds, h⟩ := Option.map_eq_some_iff.1 h
    cases h
    rw [List.cons_append, readOperator?, readBounds?_close hbounds]
    rfl
  next h₁ h₂ h₃ h₄ =>
    cases h
    have h₁ := close_ne_cons h₁ (by decide)
    have h₂ := close_ne_cons h₂ (by decide)
    have h₃ := close_ne_cons h₃ (by decide)
    have h₄ := close_ne_cons h₄ (by decide)
    simp only [readOperator?]

theorem carries_readOperator? (cs : List Char) :
    Carries Kept (readOperator? cs) (readOperator? (cs ++ [')'])) :=
  ⟨fun _ h => ⟨_, readOperator?_close h, rfl⟩⟩

/-- Whether an operator is greedy, and what is to be read after it. -/
def greediness : List Char → Bool × List Char
  | '?' :: cs => (false, cs)
  | cs => (true, cs)

theorem greediness_close (cs : List Char) :
    greediness (cs ++ [')']) = ((greediness cs).1, (greediness cs).2 ++ [')']) := by
  by_cases hlazy : ∃ r, cs = '?' :: r
  · obtain ⟨r, rfl⟩ := hlazy
    rfl
  · have hplain : ∀ r, cs = '?' :: r → False := fun r hr => hlazy ⟨r, hr⟩
    rw [greediness, greediness]
    · exact hplain
    · exact close_ne_cons hplain (by decide)

theorem readOperators?_succ (r : Reading) (cs : List Char) :
    readOperators? (fuel + 1) r cs = (readOperator? cs).bind fun
      | (none, rest) => some (r, rest)
      | (some (least, greatest), rest) =>
        readOperators? fuel (r.within (repeated least greatest (greediness rest).1))
          (greediness rest).2 :=
  rfl

theorem carries_readOperators? (h : fuel ≤ fuel') (r r' : Reading) (cs : List Char) :
    Carries Enclosed (readOperators? fuel r cs) (readOperators? fuel' r' (cs ++ [')'])) := by
  induction fuel generalizing fuel' r r' cs with
  | zero => exact .none
  | succ fuel ih =>
    obtain ⟨fuel', rfl⟩ : ∃ n, fuel' = n + 1 := ⟨fuel' - 1, by omega⟩
    rw [readOperators?_succ, readOperators?_succ]
    refine (carries_readOperator? cs).bind ?_
    rintro ⟨_ | ⟨least, greatest⟩, rest⟩ _ rfl
    · exact .some rfl
    · simp only [greediness_close]
      exact ih (Nat.le_of_succ_le_succ h) ..

/-! ## Atoms and alternatives -/

theorem startsWithOperator_close (cs : List Char) :
    startsWithOperator (cs ++ [')']) = startsWithOperator cs := by
  cases cs with
  | nil => decide
  | cons c cs => rfl

theorem readAtom?_plain {c : Char} (h : c ∉ ['[', '.', '^', '$', '\\']) (dotAll : Bool)
    (cs : List Char) : readAtom? dotAll (c :: cs) =
      if startsWithOperator [c] then none else some (.leaf (char (.single c)), cs) := by
  simp only [List.mem_cons, List.not_mem_nil, or_false, not_or] at h
  obtain ⟨hclass, hany, hstart, hstop, hescape⟩ := h
  rw [readAtom?]
  · exact hclass
  · exact hany
  · exact hstart
  · exact hstop
  · exact fun _ _ h => absurd h hescape
  · exact fun h => absurd h hescape

theorem carries_readAtom? (dotAll : Bool) (cs : List Char) :
    Carries Enclosed (readAtom? dotAll cs) (readAtom? dotAll (cs ++ [')'])) := by
  rcases cs with _ | ⟨c, cs⟩
  · exact .none
  by_cases hspecial : c ∈ ['[', '.', '^', '$', '\\']
  · simp only [List.mem_cons, List.not_mem_nil, or_false] at hspecial
    rcases hspecial with rfl | rfl | rfl | rfl | rfl
    · have hle : 2 * cs.length + 2 ≤ 2 * (cs ++ [')']).length + 2 := by
        rw [List.length_append]
        omega
      exact ((classesClose _).classes hle cs).map fun _ _ h => h
    · exact .some rfl
    · exact .some rfl
    · exact .some rfl
    · rcases cs with _ | ⟨c, cs⟩
      · exact .none
      · rw [List.cons_append, List.cons_append, readAtom?, readAtom?]
        rcases escape? c with _ | r
        · exact .none
        · exact .some rfl
  · rw [List.cons_append, readAtom?_plain hspecial, readAtom?_plain hspecial]
    split
    · exact .none
    · exact .some rfl

theorem readFlag?_close (cs : List Char) :
    readFlag? (cs ++ [')']) = (readFlag? cs).map fun (flag, rest) => (flag, rest ++ [')']) := by
  by_cases hset : ∃ r, cs = 's' :: r
  · obtain ⟨r, rfl⟩ := hset
    rfl
  by_cases hclear : ∃ r, cs = '-' :: 's' :: r
  · obtain ⟨r, rfl⟩ := hclear
    rfl
  have hset : ∀ r, cs = 's' :: r → False := fun r hr => hset ⟨r, hr⟩
  have hclear : ∀ r, cs = '-' :: 's' :: r → False := fun r hr => hclear ⟨r, hr⟩
  rw [readFlag?, readFlag?]
  · rfl
  · exact hset
  · exact hclear
  · exact close_ne_cons hset (by decide)
  · rintro r hr
    rcases cs with _ | ⟨c, cs⟩
    · cases hr
    · obtain ⟨rfl, htail⟩ := List.cons.inj hr
      exact close_ne_cons (fun r hr => hclear r (congrArg _ hr)) (by decide) r htail

theorem readItems?_flagged (fuel : Nat) (dotAll : Bool) (inside : List Char) :
    readItems? (fuel + 1) dotAll ('(' :: '?' :: inside) =
      match readFlag? inside with
      | some (flag, ')' :: rest) =>
        if startsWithOperator rest then none
        else (readItems? fuel flag rest).map fun (parts, dotAll, rest) =>
          (.leaf empty :: parts, dotAll, rest)
      | some (inner, ':' :: inside) => readGroup? fuel dotAll inner id inside
      | some _ => none
      | none => match inside with
        | ':' :: inside => readGroup? fuel dotAll dotAll id inside
        | _ => none :=
  rfl

theorem readItems?_group {inside : List Char} (h : ∀ r, inside = '?' :: r → False) (fuel : Nat)
    (dotAll : Bool) : readItems? (fuel + 1) dotAll ('(' :: inside) =
      readGroup? fuel dotAll dotAll (group inside.length) inside := by
  rw [readItems?] <;> first | exact h | exact nofun

theorem readItems?_atom {c : Char} (h : c ∉ ['|', ')', '(']) (fuel : Nat) (dotAll : Bool)
    (cs : List Char) : readItems? (fuel + 1) dotAll (c :: cs) =
      (readAtom? dotAll (c :: cs)).bind fun (atom, rest) => readRest? fuel dotAll atom rest := by
  simp only [List.mem_cons, List.not_mem_nil, or_false, not_or] at h
  obtain ⟨hbranch, hclose, hopen⟩ := h
  rw [readItems?]
  · exact nofun
  · exact fun _ h => hbranch (List.cons.inj h).1
  · exact fun _ h => hclose (List.cons.inj h).1
  · exact fun _ h => hopen (List.cons.inj h).1
  · exact fun _ h => hopen (List.cons.inj h).1

/-- Parts of an alternative with the flag after them, which is the same, and with a rest that ends
with a parenthesis that the rest of the others does not have. -/
def ItemsEnclosed (a : α × Bool × List Char) (b : β × Bool × List Char) : Prop :=
  b.2 = (a.2.1, a.2.2 ++ [')'])

/-- All readers of expressions, with as much fuel or more. -/
structure Closes (fuel : Nat) : Prop where
  branches : ∀ {fuel'}, fuel ≤ fuel' → ∀ dotAll cs,
    Carries Enclosed (readBranches? fuel dotAll cs) (readBranches? fuel' dotAll (cs ++ [')']))
  items : ∀ {fuel'}, fuel ≤ fuel' → ∀ dotAll cs,
    Carries ItemsEnclosed (readItems? fuel dotAll cs) (readItems? fuel' dotAll (cs ++ [')']))
  group : ∀ {fuel'}, fuel ≤ fuel' → ∀ dotAll inner mark mark' cs,
    Carries ItemsEnclosed (readGroup? fuel dotAll inner mark cs)
      (readGroup? fuel' dotAll inner mark' (cs ++ [')']))
  rest : ∀ {fuel'}, fuel ≤ fuel' → ∀ dotAll r r' cs,
    Carries ItemsEnclosed (readRest? fuel dotAll r cs) (readRest? fuel' dotAll r' (cs ++ [')']))

namespace Closes

variable (h : Closes fuel) (hle : fuel ≤ fuel')
include h hle

theorem readRest? (dotAll : Bool) (r r' : Reading) (cs : List Char) :
    Carries ItemsEnclosed (readRest? (fuel + 1) dotAll r cs)
      (readRest? (fuel' + 1) dotAll r' (cs ++ [')'])) := by
  have hlength : cs.length + 1 ≤ (cs ++ [')']).length + 1 := by
    rw [List.length_append]
    omega
  refine (carries_readOperators? hlength r r' cs).bind ?_
  rintro ⟨part, rest⟩ ⟨part', _⟩ rfl
  exact (h.items hle dotAll rest).map fun _ _ h => h

theorem readGroup? (dotAll inner : Bool) (mark mark' : Regex → Regex) (cs : List Char) :
    Carries ItemsEnclosed (readGroup? (fuel + 1) dotAll inner mark cs)
      (readGroup? (fuel' + 1) dotAll inner mark' (cs ++ [')'])) := by
  refine (h.branches hle inner cs).bind ?_
  rintro ⟨branches, rest⟩ ⟨branches', _⟩ rfl
  rcases rest with _ | ⟨c, rest⟩
  · exact .none
  by_cases hc : c = ')'
  · subst hc
    exact h.rest hle _ _ _ rest
  · simp only
    split
    next heq =>
      cases heq
      exact absurd rfl hc
    · exact .none

theorem readBranches? (dotAll : Bool) (cs : List Char) :
    Carries Enclosed (readBranches? (fuel + 1) dotAll cs)
      (readBranches? (fuel' + 1) dotAll (cs ++ [')'])) := by
  refine (h.items hle dotAll cs).bind ?_
  rintro ⟨parts, flag, rest⟩ ⟨parts', _⟩ rfl
  rcases rest with _ | ⟨c, rest⟩
  · exact .some rfl
  by_cases hc : c = '|'
  · subst hc
    exact (h.branches hle flag rest).map fun _ _ h => h
  · simp only [List.cons_append]
    split
    next heq =>
      cases heq
      exact absurd rfl hc
    next heq =>
      cases heq
      split
      next heq =>
        cases heq
        exact absurd rfl hc
      next heq =>
        cases heq
        exact .some rfl

/-- A group whose opening says more than that it is one. -/
theorem readItems?_flagged (dotAll : Bool) (inside : List Char) :
    Carries ItemsEnclosed (Regex.readItems? (fuel + 1) dotAll ('(' :: '?' :: inside))
      (Regex.readItems? (fuel' + 1) dotAll ('(' :: '?' :: (inside ++ [')']))) := by
  rw [Regex.readItems?_flagged, Regex.readItems?_flagged, readFlag?_close]
  rcases readFlag? inside with _ | ⟨flag, rest⟩
  · rcases inside with _ | ⟨c, inside⟩
    · exact .none
    by_cases hc : c = ':'
    · subst hc
      exact h.group hle dotAll dotAll id id inside
    · simp only [Option.map_none]
      split
      next heq => exact absurd (List.cons.inj heq).1 hc
      · exact .none
  · rcases rest with _ | ⟨c, rest⟩
    · exact .none
    by_cases hclose : c = ')'
    · subst hclose
      simp only [Option.map_some, List.cons_append, startsWithOperator_close]
      split
      · exact .none
      · refine (h.items hle flag rest).map ?_
        rintro ⟨parts, flag, rest⟩ ⟨parts', _⟩ rfl
        exact rfl
    by_cases hcolon : c = ':'
    · subst hcolon
      exact h.group hle dotAll flag id id rest
    · simp only [Option.map_some]
      split
      next heq =>
        cases heq
        exact absurd rfl hclose
      next heq =>
        cases heq
        exact absurd rfl hcolon
      · exact .none
      next heq => cases heq

theorem readItems? (dotAll : Bool) (cs : List Char) :
    Carries ItemsEnclosed (readItems? (fuel + 1) dotAll cs)
      (Regex.readItems? (fuel' + 1) dotAll (cs ++ [')'])) := by
  rcases cs with _ | ⟨c, cs⟩
  · exact .some rfl
  by_cases hspecial : c ∈ ['|', ')', '(']
  · simp only [List.mem_cons, List.not_mem_nil, or_false] at hspecial
    rcases hspecial with rfl | rfl | rfl
    · exact .some rfl
    · exact .some rfl
    by_cases hflagged : ∃ r, cs = '?' :: r
    · obtain ⟨r, rfl⟩ := hflagged
      exact readItems?_flagged h hle dotAll r
    · have hplain : ∀ r, cs = '?' :: r → False := fun r hr => hflagged ⟨r, hr⟩
      rw [List.cons_append, readItems?_group hplain,
        readItems?_group (close_ne_cons hplain (by decide))]
      exact h.group hle dotAll dotAll _ _ cs
  · rw [List.cons_append, readItems?_atom hspecial, readItems?_atom hspecial]
    refine (carries_readAtom? dotAll (c :: cs)).bind ?_
    rintro ⟨atom, rest⟩ ⟨atom', _⟩ rfl
    exact h.rest hle dotAll _ _ rest

end Closes

/-- **Reading in a group.** What is read without a closing parenthesis behind it is read with it,
and the parenthesis is left. -/
theorem closes (fuel : Nat) : Closes fuel := by
  induction fuel with
  | zero => exact ⟨fun _ _ _ => .none, fun _ _ _ => .none, fun _ _ _ _ _ _ => .none,
      fun _ _ _ _ _ => .none⟩
  | succ fuel ih =>
    refine ⟨@fun fuel' hle _ _ => ?_, @fun fuel' hle _ _ => ?_, @fun fuel' hle _ _ _ _ _ => ?_,
      @fun fuel' hle _ _ _ _ => ?_⟩
    all_goals obtain ⟨fuel', rfl⟩ : ∃ n, fuel' = n + 1 := ⟨fuel' - 1, by omega⟩
    all_goals have hle := Nat.le_of_succ_le_succ hle
    · exact ih.readBranches? hle ..
    · exact ih.readItems? hle ..
    · exact ih.readGroup? hle ..
    · exact ih.readRest? hle ..

end Descent.Regex
