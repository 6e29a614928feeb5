import Descent.Json.Basic

/-!
# Inclusion of values

One value is included in another when everything it says holds of the other: an object may leave
members out, at any depth, and nothing else may differ.
-/

namespace Descent.Json

mutual

/-- Whether a value has everything that another, the first, says. -/
def includedIn : Json → Json → Bool
  | object asked, object given => membersIncludedIn asked given
  | array asked, array given => elementsIncludedIn asked given
  | asked, given => equal asked given

/-- Whether each of some members is included in the one of its name among others. -/
def membersIncludedIn : List (String × Json) → List (String × Json) → Bool
  | [], _ => true
  | (name, value) :: rest, given =>
    (match given.lookup name with
      | some found => includedIn value found
      | none => false) && membersIncludedIn rest given

/-- Whether two lists have one length and each element is included in its partner. -/
def elementsIncludedIn : List Json → List Json → Bool
  | [], [] => true
  | a :: as, b :: bs => includedIn a b && elementsIncludedIn as bs
  | _, _ => false

end

end Descent.Json
