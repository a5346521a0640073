import Steward.Binary64.Basic
import Steward.Entries

/-!
# Data

The values that settings files, variables and snapshots are made of, before they are read as the
types of the host and after they are written from them.
-/

namespace Steward

/-- A value of a data format. -/
inductive Datum where
  | null
  | flag (value : Bool)
  | integer (value : Int)
  | real (value : Binary64)
  | text (value : String)
  | list (items : List Datum)
  | table (fields : List (String × Datum))
  deriving Inhabited

namespace Datum

/-- An integer that is a natural up to a bound. -/
def naturalUpTo? (bound : Nat) : Datum → Option Nat
  | .integer value => if 0 ≤ value ∧ value ≤ bound then some value.toNat else none
  | _ => none

/-- A number; an integer is rounded to double precision. -/
def number? : Datum → Option Binary64
  | .integer value => some (.nearest (decide (value < 0)) (value.natAbs * unitsPerOne) 1)
  | .real value => some value
  | _ => none

/-- A truth value. -/
def flag? : Datum → Option Bool
  | .flag value => some value
  | _ => none

/-- A text. -/
def text? : Datum → Option String
  | .text value => some value
  | _ => none

/-- The value of a field of a table. -/
def field? (d : Datum) (key : String) : Option Datum :=
  match d with
  | .table fields => fields.lookup key
  | _ => none

end Datum

/-- The table of pairs, of which a later one replaces an earlier one of its key. -/
def Datum.tableOf (pairs : List (String × Datum)) : Datum :=
  .table (pairs.foldl (fun entries (key, value) => Entries.put key value entries) [])

end Steward
