import Descent.Phrase
import Descent.Proofs.Session.Repetition
import Descent.Proofs.Session.Words

/-!
# Productions of phrases follow their readers

* `readAnyWord`, `readDigits`, `readLetters`, `readGreeting`, `readSentence`, `readNested`: one
  reader for each production that reads something.

What is read of a word depends on the options, so a reader is that of given options. Phrases are
written the same way whatever the options are then.
-/

namespace Descent.Phrase

open Reader (many seriesTurn)
open Session (Builds Draws Parses parses_deeper parses_of_builds parses_zero)

/-! ## The case of words -/

section
variable {c : Char} (h : Word.has c)
include h

theorem has_toLower : Word.has c.toLower :=
  Word.forall_has (P := fun c => Word.has c.toLower) (by decide +kernel) h

theorem has_toUpper : Word.has c.toUpper :=
  Word.forall_has (P := fun c => Word.has c.toUpper) (by decide +kernel) h

theorem toLower_toLower : c.toLower.toLower = c.toLower :=
  Word.forall_has (P := fun c => c.toLower.toLower = c.toLower) (by decide +kernel) h

theorem toUpper_toLower : c.toLower.toUpper = c.toUpper :=
  Word.forall_has (P := fun c => c.toLower.toUpper = c.toUpper) (by decide +kernel) h

theorem toLower_toUpper : c.toUpper.toLower = c.toLower :=
  Word.forall_has (P := fun c => c.toUpper.toLower = c.toLower) (by decide +kernel) h

end

/-! ## Readers -/

/-- A word as the options want it. -/
def cased (upper : Bool) (word : String) : String :=
  if upper then capitals word else word

def readAnyWord (upper : Bool) : Reader String := fun cs =>
  (readThisWord none cs).map fun (word, rest) => (cased upper word, rest)

def readDigits : Reader Nat := fun cs =>
  (someOf? CharSet.digits.holds cs).map fun (digits, rest) => (digitsValue digits, rest)

def readLetters : Reader String := fun cs =>
  (someOf? (CharSet.range 'a' 'z').holds cs).map fun (l, rest) => (String.ofList l, rest)

def readGreeting (upper : Bool) (levels : Nat) : Reader String := fun cs => do
  let (_, cs) ← readThisWord (some "hello") cs
  let (word, rest) ← deeper levels (readAnyWord upper) cs
  return (word, rest)

/-- Whether a word is next, with no space in front of it. -/
def startsWord (cs : List Char) : Bool :=
  cs.head?.any Word.has

theorem startsWord_append {l : List Char} (hne : l ≠ []) (hl : ∀ c ∈ l, Word.has c)
    (r : List Char) : startsWord (l ++ r) := by
  obtain ⟨c, l, rfl⟩ := List.exists_cons_of_ne_nil hne
  exact hl c (.head _)

def readSentence (upper : Bool) (levels : Nat) : Reader (List String) := fun cs => do
  let (words, cs) ← many (seriesTurn (deeper levels (readAnyWord upper)) startsWord) cs
  let (_, rest) ← literalSpan? "." cs
  return (words, rest)

/-- A word in parentheses. -/
inductive Nest
  | word (word : String)
  | inner (nest : Nest)

def readNested : Nat → Reader Nest
  | 0, _ => none
  | levels + 1, cs =>
    match literalSpan? "(" cs with
    | some (_, cs) => do
      let (nest, cs) ← readNested levels cs
      let (_, rest) ← literalSpan? ")" cs
      return (.inner nest, rest)
    | none => (readThisWord none cs).map fun (word, rest) => (.word word, rest)

/-! ## What is shown -/

def wordJson (word : String) : Json :=
  .ofMembers [("word", .string word)]

def Nest.json : Nest → Json
  | word w => wordJson w
  | inner nest => .ofMembers [("inner", nest.json)]

def Nest.source : Nest → String
  | word w => w
  | inner nest => "(" ++ nest.source ++ ")"

def sentenceSource (words : List String) : String :=
  " ".intercalate words ++ "."

/-! ## Productions -/

variable {levels : Nat} {options : Options}

theorem builds_anyWord : Builds grammar levels anyWord options
    (readAnyWord (Options.flag options "upper")) wordJson (fun word _ => word) := by
  intro s cs hs hahead
  refine Agrees.bind_pure (hs.agrees_takeThisWord hahead none) ?_
  rintro _ ⟨word, rest⟩ s' ⟨rfl, hcomes⟩
  exact ⟨hcomes, rfl, fun _ => rfl⟩

theorem parses_anyWord : Parses grammar levels "AnyWord" options
    (deeper levels (readAnyWord (Options.flag options "upper"))) wordJson (fun word _ => word) :=
  parses_deeper rfl (fun _ => builds_anyWord) levels

theorem builds_number : Builds grammar levels number options readDigits
    (fun n => .ofMembers [("value", .int n)]) (fun n _ => toString n) := by
  intro s cs hs hahead
  refine Agrees.bind_pure (hs.agrees_take (spans_some rfl) hahead none) ?_
  rintro _ ⟨digits, rest⟩ s' ⟨rfl, hcomes⟩
  rw [String.toList_ofList]
  exact ⟨hcomes, rfl, fun _ => rfl⟩

theorem parses_number : Parses grammar levels "Number" options (deeper levels readDigits)
    (fun n => .ofMembers [("value", .int n)]) (fun n _ => toString n) :=
  parses_deeper rfl (fun _ => builds_number) levels

theorem builds_letters : Builds grammar levels letters options readLetters wordJson
    (fun word _ => word) := by
  intro s cs hs hahead
  refine Agrees.bind_pure (hs.agrees_take (spans_some rfl) hahead none) ?_
  rintro _ ⟨l, rest⟩ s' ⟨rfl, hcomes⟩
  exact ⟨hcomes, rfl, fun _ => rfl⟩

theorem parses_letters : Parses grammar levels "Letters" options (deeper levels readLetters)
    wordJson (fun word _ => word) :=
  parses_deeper rfl (fun _ => builds_letters) levels

theorem builds_greeting : Builds grammar levels greeting options
    (readGreeting (Options.flag options "upper") levels)
    (fun word => .ofMembers [("name", wordJson word)]) (fun word _ => "hello " ++ word) := by
  intro s cs hs hahead
  refine Agrees.bind (hs.agrees_takeThisWord hahead (some "hello")) ?_
  rintro _ ⟨_, cs₁⟩ s₁ ⟨-, hhello⟩
  refine Agrees.bind (parses_anyWord.agrees (hhello.ready hs) hhello.ahead) ?_
  rintro name ⟨word, rest⟩ s₂ hname
  refine ⟨_, s₂, rfl, hhello.trans hname.comes, ?_, fun options => ?_⟩
  · change Json.ofMembers [("name", s₂.tree.json name)] = _
    rw [hname.shows.json_eq]
  · change "hello " ++ grammar.write s₂.tree name options = _
    rw [hname.shows.write_eq]

theorem parses_greeting (levels : Nat) : Parses grammar levels "Greeting" options
    (deeper levels (readGreeting (Options.flag options "upper") (levels - 1)))
    (fun word => .ofMembers [("name", wordJson word)]) (fun word _ => "hello " ++ word) :=
  parses_deeper rfl (fun _ => builds_greeting) levels

/-! ## Sentences -/

theorem shrinks_anyWord (upper : Bool) : (readAnyWord upper).Shrinks := by
  intro cs word rest h
  obtain ⟨⟨read, _⟩, hread, heq⟩ := Option.map_eq_some_iff.1 h
  cases heq
  exact shrinks_readThisWord hread

theorem builds_sentence : Builds grammar levels sentence options
    (readSentence (Options.flag options "upper") levels)
    (fun words => .ofMembers [("words", .array (words.map wordJson))])
    (fun words _ => sentenceSource words) := by
  intro s cs hs hahead
  have hstart (s : Session) : grammar.seesStart anyWord options s =
      .ok (startsWord s.cursor.ahead) := rfl
  refine Agrees.bind (Session.agrees_series rfl parses_anyWord
    (Reader.Shrinks.deeper (shrinks_anyWord _) levels) hs hahead hstart) ?_
  rintro ids ⟨words, cs₁⟩ s₁ ⟨hcomes, hall⟩
  refine Agrees.bind ((hcomes.ready hs).agrees_take (spans_literal ".") hcomes.ahead none) ?_
  rintro _ ⟨_, rest⟩ s₂ ⟨-, hstop⟩
  obtain ⟨hjsons, htexts⟩ := Session.json_of_showsAll (hall.imp fun _ _ h => h.keeps hstop.keeps)
  have hcomes₂ : s.Comes rest (ids ++ []) s₂ := hcomes.trans hstop
  refine ⟨_, s₂, rfl, hcomes₂, ?_, fun options => ?_⟩
  · change Json.ofMembers [("words", .array (ids.map s₂.tree.json))] = _
    rw [hjsons]
  · change " ".intercalate (ids.map (grammar.write s₂.tree · options)) ++ "." = _
    rw [htexts, List.map_id']
    rfl

theorem parses_sentence (levels : Nat) : Parses grammar levels "Sentence" options
    (deeper levels (readSentence (Options.flag options "upper") (levels - 1)))
    (fun words => .ofMembers [("words", .array (words.map wordJson))])
    (fun words _ => sentenceSource words) :=
  parses_deeper rfl (fun _ => builds_sentence) levels

/-! ## Nested phrases -/

theorem builds_nested
    (hinner : Parses grammar levels "Nested" options (readNested levels) Nest.json
      (fun nest _ => nest.source)) :
    Builds grammar levels nested options (readNested (levels + 1)) Nest.json
      (fun nest _ => nest.source) := by
  intro s cs hs hahead
  subst hahead
  unfold readNested
  rcases hopen : literalSpan? "(" s.cursor.ahead with _ | ⟨l, cs₁⟩
  · refine Agrees.step (Session.run_take?_none (spans_literal "(") hopen) ?_
    refine Agrees.bind_pure (hs.agrees_takeThisWord rfl none) ?_
    rintro _ ⟨word, rest⟩ s' ⟨rfl, hcomes⟩
    exact ⟨hcomes, rfl, fun _ => rfl⟩
  · obtain ⟨s₁, hrun, hcomes⟩ := hs.run_take?_some (spans_literal "(") hopen
    have hs₁ := hcomes.ready hs
    refine Agrees.step hrun ?_
    refine Agrees.bind (hinner.agrees hs₁ hcomes.ahead) ?_
    rintro inner ⟨nest, cs₂⟩ s₂ hparsed
    have hs₂ := hparsed.comes.ready hs₁
    refine Agrees.bind (hs₂.agrees_take (spans_literal ")") hparsed.comes.ahead none) ?_
    rintro _ ⟨_, rest⟩ s₃ ⟨-, hclose⟩
    have hshows := hparsed.shows.keeps hclose.keeps
    have hcomes₃ : s.Comes rest [inner] s₃ := hcomes.trans (hparsed.comes.trans hclose)
    refine ⟨_, s₃, rfl, hcomes₃, ?_, fun options => ?_⟩
    · change Json.ofMembers [("inner", s₃.tree.json inner)] = _
      rw [hshows.json_eq]
      rfl
    · change "(" ++ grammar.write s₃.tree inner options ++ ")" = _
      rw [hshows.write_eq]
      rfl

theorem parses_nested : (levels : Nat) → Parses grammar levels "Nested" options
    (readNested levels) Nest.json (fun nest _ => nest.source)
  | 0 => parses_zero rfl
  | levels + 1 => parses_of_builds rfl (builds_nested (parses_nested levels))

/-! ## Nothing -/

theorem builds_nothing : Builds grammar levels nothing options (fun cs => some ((), cs))
    (fun _ => .ofMembers []) (fun _ _ => "") := by
  intro s cs hs hahead
  exact ⟨_, s, rfl, hahead ▸ hs.comes (.refl _), rfl, fun _ => rfl⟩

theorem parses_nothing : Parses grammar levels "Empty" options
    (deeper levels fun cs => some ((), cs)) (fun _ => .ofMembers []) (fun _ _ => "") :=
  parses_deeper rfl (fun _ => builds_nothing) levels

end Descent.Phrase
