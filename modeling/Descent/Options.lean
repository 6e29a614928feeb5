import Descent.Json.Basic

/-!
# Options
-/

namespace Descent

/-- What a caller tells a production besides the text: nothing, or any value. -/
abbrev Options := Option Json

/-- Whether options give a name the value true. -/
def Options.flag (options : Options) (name : String) : Bool :=
  ((options.bind (·.get? name)).bind Json.bool?).getD false

end Descent
