import Steward.Settings.Basic
import Steward.Settings.Variables
import Steward.Table

/-!
# Layers of settings

The defaults lie at the bottom, a settings file over them, and the variables on top. Tables merge
key by key; any other value replaces what lies under it.
-/

namespace Steward

mutual

/-- A datum laid over another one. -/
def Datum.over (under : Datum) : Datum → Datum
  | .table above =>
    match under with
    | .table entries => .table (mergeFields entries above)
    | _ => .table above
  | above => above

/-- Entries laid over other ones, key by key. -/
def mergeFields (under : List (String × Datum)) :
    List (String × Datum) → List (String × Datum)
  | [] => under
  | (key, value) :: rest =>
    let merged :=
      match under.lookup key with
      | some old => old.over value
      | none => value
    mergeFields (Entries.put key merged under) rest

end

/-- A value under the segments of a key. -/
def nest (segments : List String) (value : Datum) : Datum :=
  segments.foldr (fun segment inner => .table [(segment, inner)]) value

/-- The layer of the variables that a mark selects, in the order of their names. -/
def variableLayer (mark : String) (environment : Table String) : Datum :=
  environment.entries.foldl
    (fun layer (name, value) =>
      match Variables.keyOf? mark name with
      | some segments => layer.over (nest segments (Variables.parseValue value))
      | none => layer)
    (.table [])

end Steward
