import Descent.Script.Binding

/-!
# Syntax trees of scripts

* `Expr`, `Binding`: what a script says;
* `Expr.height`, `need`: how many parses are in progress at once while it is read;
* `Expr.json`, `Binding.json`, `scriptJson`: the JSON of the node parsed from it;
* `Expr.source`, `Binding.source`, `scriptSource`: how it is written.
-/

namespace Descent.Script

/-- An expression. A number is the value of its literal. -/
inductive Expr
  | text (value : String)
  | number (value : Json)
  | name (name : String)
  | call (name : String) (args : List Expr)

/-- A name for an expression. -/
structure Binding where
  name : String
  value : Expr

/-! ## Heights -/

namespace Expr

mutual

/-- How many levels it takes to parse an expression. In a call the name takes a level of its own. -/
def height : Expr → Nat
  | text _ | number _ | name _ => 2
  | call _ args => 2 + max 1 (heights args)

def heights : List Expr → Nat
  | [] => 0
  | x :: xs => max x.height (heights xs)

end

end Expr

/-- How many levels it takes to parse a script. -/
def need (bindings : List Binding) : Nat :=
  if bindings.isEmpty then 1 else 2 + Expr.heights (bindings.map (·.value))

/-! ## JSON -/

def valueJson (value : Json) : Json :=
  .ofMembers [("value", value)]

def nameJson (name : String) : Json :=
  .ofMembers [("name", .string name)]

/-- The JSON of a call, given that of its arguments. -/
def callJson (name : String) (args : List Json) : Json :=
  .ofMembers [("name", nameJson name), ("args", .array args)]

namespace Expr

mutual

def json : Expr → Json
  | text s => .ofMembers [("text", valueJson (.string s))]
  | number value => .ofMembers [("number", valueJson value)]
  | name s => .ofMembers [("identifier", nameJson s)]
  | call s args => .ofMembers [("call", callJson s (jsons args))]

def jsons : List Expr → List Json
  | [] => []
  | x :: xs => x.json :: jsons xs

end

theorem jsons_eq_map (xs : List Expr) : jsons xs = xs.map json := by
  induction xs with
  | nil => rfl
  | cons x xs ih => rw [jsons, ih, List.map_cons]

end Expr

def Binding.json (b : Binding) : Json :=
  .ofMembers [("name", nameJson b.name), ("value", b.value.json)]

def scriptJson (bindings : List Binding) : Json :=
  .ofMembers [("statements", .array (bindings.map (·.json)))]

/-! ## Source texts -/

def textSource (s : String) (options : Options) : String :=
  encode (options.flag "ascii") s

/-- A call, given the source texts of its arguments. -/
def callSource (name : String) (args : List String) : String :=
  name ++ "(" ++ ", ".intercalate args ++ ")"

namespace Expr

mutual

def source : Expr → Options → String
  | text s, options => textSource s options
  | number value, _ => numberText value
  | name s, _ => s
  | call s args, options => callSource s (sources args options)

def sources : List Expr → Options → List String
  | [], _ => []
  | x :: xs, options => x.source options :: sources xs options

end

theorem sources_eq_map (xs : List Expr) (options : Options) :
    sources xs options = xs.map (·.source options) := by
  induction xs with
  | nil => rfl
  | cons x xs ih => rw [sources, ih, List.map_cons]

end Expr

def Binding.source (b : Binding) (options : Options) : String :=
  "let " ++ b.name ++ " = " ++ b.value.source options ++ ";"

def scriptSource (bindings : List Binding) (options : Options) : String :=
  "\n".intercalate (bindings.map (·.source options))

end Descent.Script
