import Steward.Datum

/-!
# Tables while a file is put together

Until the last line of a file is read, a table remembers how it came about, because that decides
what may still be added to it. Every addition is a change of the table at the end of a path.
-/

namespace Steward.Toml

/-- What stands under a key while a file is put together. -/
inductive Item where
  /-- A value that nothing can be added to. -/
  | value (value : Datum)
  /-- A table. One that only the keys of others imply may be opened once by a header of its own,
  unless it came from a dotted key. -/
  | table (implied dotted : Bool) (entries : List (String × Item))
  /-- An array of tables, newest last. -/
  | rows (rows : List (List (String × Item)))
  deriving Inhabited

mutual

/-- An item as data. -/
def Item.toDatum : Item → Datum
  | .value value => value
  | .table _ _ entries => .table (entriesToData entries)
  | .rows rows => .list (rowsToData rows)

/-- Entries as data. -/
def entriesToData : List (String × Item) → List (String × Datum)
  | [] => []
  | (key, item) :: rest => (key, item.toDatum) :: entriesToData rest

/-- The rows of an array of tables as data. -/
def rowsToData : List (List (String × Item)) → List Datum
  | [] => []
  | row :: rest => .table (entriesToData row) :: rowsToData rest

end

/-- A change of a table, which may be refused: it sees whether the table came from a dotted key, and
its entries. -/
abbrev Change := Bool → List (String × Item) → Option (List (String × Item))

/-- Change the table at the end of a path. Missing tables on the way are implied ones. Through an
array of tables the way leads into its last row. A dotted path enters implied tables only. -/
def changeAt (viaDots : Bool) (change : Change) : List String → Change
  | [], dotted, entries => change dotted entries
  | key :: path, _, entries =>
    match entries.lookup key with
    | none => do
      let inner ← changeAt viaDots change path viaDots []
      some (entries ++ [(key, .table true viaDots inner)])
    | some (.value _) => none
    | some (.table implied dotted inner) =>
      if viaDots && !implied then none
      else do
        let changed ← changeAt viaDots change path dotted inner
        some (Entries.put key (.table implied dotted changed) entries)
    | some (.rows rows) =>
      match rows.getLast? with
      | none => none
      | some row => do
        let changed ← changeAt viaDots change path false row
        some (Entries.put key (.rows (rows.dropLast ++ [changed])) entries)

/-- Add a value under a new key. A table from dotted keys grows by dotted keys only. -/
def addValue (viaDots : Bool) (key : String) (value : Datum) : Change := fun dotted entries =>
  if dotted != viaDots then none
  else
    match entries.lookup key with
    | some _ => none
    | none => some (entries ++ [(key, .value value)])

/-- Add a value under a dotted key of a table. -/
def addAt (segments : List String) (value : Datum) : Change :=
  match segments.getLast? with
  | none => fun _ _ => none
  | some key =>
    let path := segments.dropLast
    changeAt true (addValue (!path.isEmpty) key value) path

end Steward.Toml
