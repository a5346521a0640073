import Steward.Toml.Value

/-!
# Settings files as data

A file is a sequence of lines: headers that open a table or add a row to an array of tables, and
pairs that add a value to the table opened last. The lines are read first and then put together into
one table; a second definition of anything is refused.
-/

namespace Steward.Toml

/-- A line with content. -/
inductive Line where
  /-- Open a table. -/
  | table (path : List String)
  /-- Add a row to an array of tables. -/
  | row (path : List String)
  /-- Add a value. -/
  | pair (key : List String) (value : Datum)

/-- Read a line with content, without its end. -/
def readLine (cs : List Char) : Option (Line × List Char) :=
  match cs with
  | '[' :: '[' :: rest =>
    match readKey rest with
    | some (path, ']' :: ']' :: left) => some (.row path, left)
    | _ => none
  | '[' :: rest =>
    match readKey rest with
    | some (path, ']' :: left) => some (.table path, left)
    | _ => none
  | _ => (readPair (readValue (depthLimit - 1)) cs).map fun ((key, value), left) =>
    (.pair key value, left)

/-- Read the lines of a file; lines without content are left out. -/
def readLines : Nat → List Char → Option (List Line)
  | _, [] => some []
  | 0, _ => none
  | fuel + 1, cs =>
    match restOfLine? cs with
    | some rest => readLines fuel rest
    | none => do
      let (line, after) ← readLine (skipBlanks cs)
      let rest ← restOfLine? after
      let lines ← readLines fuel rest
      some (line :: lines)

/-- Open a table under a key: a new one, or one that headers below it implied. -/
def openTable (key : String) : Change := fun _ entries =>
  match entries.lookup key with
  | none => some (entries ++ [(key, .table false false [])])
  | some (.table true false inner) => some (Entries.put key (.table false false inner) entries)
  | some _ => none

/-- Add a row to the array of tables under a key. -/
def addRow (key : String) : Change := fun _ entries =>
  match entries.lookup key with
  | none => some (entries ++ [(key, .rows [[]])])
  | some (.rows rows) => some (Entries.put key (.rows (rows ++ [[]])) entries)
  | some _ => none

/-- Apply a change that takes the last segment of a path at the table before it. -/
def changeBeforeLast (change : String → Change) (path : List String) : Change :=
  match path.getLast? with
  | none => fun _ _ => none
  | some key => changeAt false (change key) path.dropLast

/-- Put lines together, from the entries so far and the path of the table opened last. -/
def assemble (opened : List String) (entries : List (String × Item)) :
    List Line → Option (List (String × Item))
  | [] => some entries
  | .table path :: lines => do
    assemble path (← changeBeforeLast openTable path false entries) lines
  | .row path :: lines => do
    assemble path (← changeBeforeLast addRow path false entries) lines
  | .pair key value :: lines => do
    assemble opened (← changeAt false (addAt key value) opened false entries) lines

/-- A byte order mark in front of a file does not count. -/
def dropMark : List Char → List Char
  | c :: rest => if c = '\uFEFF' then rest else c :: rest
  | [] => []

/-- The table that a file holds. -/
def parse? (text : List Char) : Option (List (String × Datum)) := do
  let content := dropMark text
  let lines ← readLines content.length content
  let entries ← assemble [] [] lines
  some (entriesToData entries)

end Steward.Toml
