import Steward.Toml.Key
import Steward.Toml.Item
import Steward.Toml.Scalar

/-!
# Values of settings files

A value is a text, a truth value, a number, a date, an array or an inline table. Arrays and inline
tables nest up to a fixed depth.
-/

namespace Steward.Toml

/-- Read a key, the sign after it, and a value. -/
def readPair (value : List Char → Option (Datum × List Char)) (cs : List Char) :
    Option ((List String × Datum) × List Char) := do
  let (key, afterKey) ← readKey cs
  match afterKey with
  | '=' :: rest =>
    let (datum, left) ← value (skipBlanks rest)
    some ((key, datum), left)
  | _ => none

/-- Read the items of an array after its bracket; a comma may follow the last one. -/
def readItems (value : List Char → Option (Datum × List Char)) :
    Nat → List Char → Option (List Datum × List Char)
  | 0, _ => none
  | fuel + 1, cs =>
    match skipSpace cs with
    | ']' :: rest => some ([], rest)
    | start => do
      let (item, after) ← value start
      match skipSpace after with
      | ',' :: rest =>
        let (items, left) ← readItems value fuel rest
        some (item :: items, left)
      | ']' :: rest => some ([item], rest)
      | _ => none

/-- Read the pairs of an inline table after its brace, which are on one line, into entries. -/
def readPairs (value : List Char → Option (Datum × List Char)) :
    Nat → List (String × Item) → List Char → Option ((List (String × Item)) × List Char)
  | 0, _, _ => none
  | fuel + 1, entries, cs => do
    let ((key, datum), after) ← readPair value cs
    let extended ← addAt key datum false entries
    match skipBlanks after with
    | ',' :: rest => readPairs value fuel extended rest
    | '}' :: rest => some (extended, rest)
    | _ => none

/-- Read a value that nests at most to a depth. -/
def readValue : Nat → List Char → Option (Datum × List Char)
  | depth, cs =>
    match cs with
    | '"' :: _ => (readText cs).map fun (text, rest) => (.text (String.ofList text), rest)
    | '\'' :: _ => (readText cs).map fun (text, rest) => (.text (String.ofList text), rest)
    | 't' :: 'r' :: 'u' :: 'e' :: rest => some (.flag true, rest)
    | 'f' :: 'a' :: 'l' :: 's' :: 'e' :: rest => some (.flag false, rest)
    | '[' :: rest =>
      match depth with
      | 0 => none
      | depth + 1 => (readItems (readValue depth) cs.length rest).map fun (items, left) =>
        (.list items, left)
    | '{' :: rest =>
      match depth with
      | 0 => none
      | depth + 1 =>
        match skipBlanks rest with
        | '}' :: left => some (.table [], left)
        | start => (readPairs (readValue depth) cs.length [] start).map fun (entries, left) =>
          (.table (entriesToData entries), left)
    | _ => readScalar cs

end Steward.Toml
