import Steward.Decimal.Shortest
import Steward.Toml.Quoted
import Steward.Datum

/-!
# Writing settings files

A document of sections is written as one header and its pairs after the other, with an empty line
between sections. What is absent is left out.
-/

namespace Steward.Toml

/-- A scalar as it stands after a key; none for what is absent or no scalar. -/
def writeScalar? : Datum → Option (List Char)
  | .flag value => some (if value then ['t', 'r', 'u', 'e'] else ['f', 'a', 'l', 's', 'e'])
  | .integer value =>
    some ((if value < 0 then ['-'] else []) ++ Nat.toDigits 10 value.natAbs)
  | .real value => some (value.chars .settings)
  | .text value => some (writeText value.toList)
  | _ => none

/-- The lines of the pairs of a section. -/
def writePairs : List (String × Datum) → List Char
  | [] => []
  | (key, value) :: rest =>
    match writeScalar? value with
    | some written => key.toList ++ [' ', '=', ' '] ++ written ++ '\n' :: writePairs rest
    | none => writePairs rest

/-- A section: its header and its pairs. -/
def writeSection (name : String) (pairs : List (String × Datum)) : List Char :=
  '[' :: name.toList ++ [']', '\n'] ++ writePairs pairs

/-- The sections of a document, of which only tables count. -/
def sections (entries : List (String × Datum)) : List (String × List (String × Datum)) :=
  entries.filterMap fun (name, content) =>
    match content with
    | .table pairs => some (name, pairs)
    | _ => none

/-- A document of sections. -/
def print (entries : List (String × Datum)) : List Char :=
  ['\n'].intercalate ((sections entries).map fun (name, pairs) => writeSection name pairs)

end Steward.Toml
