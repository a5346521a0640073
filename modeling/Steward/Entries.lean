/-!
# Entries

Entries pair names with values and keep the order in which the names first appeared.
-/

namespace Steward.Entries

/-- Put a value under a name, in the place of an earlier one or else at the end. -/
def put {α : Type} (name : String) (value : α) : List (String × α) → List (String × α)
  | [] => [(name, value)]
  | (k, old) :: rest => if k = name then (k, value) :: rest else (k, old) :: put name value rest

end Steward.Entries
