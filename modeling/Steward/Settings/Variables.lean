import Steward.Decimal.Reading
import Steward.Text.Blank
import Steward.Toml.Quoted
import Steward.Datum
import Steward.Word

/-!
# Settings from environment variables

A variable belongs to the settings when its name begins with the mark, in any case. Two underscores
or a dot in the rest of the name separate the segments of a key. Blanks around the name and around
the key do not count. Its value is read as a truth value, a number, quoted text, an array or a
table; anything else is text.
-/

namespace Steward.Variables

/-- ASCII blanks, which may surround values. -/
def isAsciiBlank (c : Char) : Bool := c = ' ' || c = '\t' || c = '\n' || c = '\x0c' || c = '\r'

/-- Characters that end a bare value. -/
def isSeparator (c : Char) : Bool := c = ',' || c = '{' || c = '}' || c = '[' || c = ']'

/-- Characters of a bare key in a table. -/
def isKeyCharacter (c : Char) : Bool := c.isAlphanum || c = '_' || c = '-'

/-- Skip ASCII blanks. -/
def skip (cs : List Char) : List Char := cs.dropWhile isAsciiBlank

/-- The natural that a whole text of digits denotes. -/
def natural? (digits : List Char) : Option Nat :=
  if digits ≠ [] ∧ digits.all Char.isDigit then some (digitsValue digits) else none

/-- The integer of a bare value: a word without a minus, or a signed word. -/
def integer? (text : List Char) : Option Int :=
  let (negative, digits) := splitSign text
  (natural? digits).bind fun n =>
    if negative then if n ≤ signBound then some (-(n : Int)) else none
    else if n ≤ wordMax then some n else none

/-- What a bare value denotes: a number with a point, an integer, or text. -/
def bareDatum (text : List Char) : Datum :=
  let number := if text.contains '.' then readBinary64? text else none
  match number, integer? text with
  | some x, _ => .real x
  | none, some n => .integer n
  | none, none => .text (String.ofList text)

/-- The characters at the front of a text that take a number of bytes, unless the last of these
bytes lies inside a character. -/
def takeBytes? : Nat → List Char → Option (List Char)
  | 0, _ => some []
  | _ + 1, [] => none
  | n + 1, c :: rest =>
    if c.utf8Size ≤ n + 1 then (takeBytes? (n + 1 - c.utf8Size) rest).map (c :: ·) else none

/-- Read quoted text after its opening quote. What stands before the first escape is cut to as many
bytes as it has characters, so that text beyond ASCII loses its end there. -/
def readQuoted (cs : List Char) : Option (List Char × List Char) := do
  let (text, rest) ← Toml.readBasic cs
  let plain := cs.takeWhile fun c => c ≠ '"' && c ≠ '\\'
  if (cs.drop plain.length).head? = some '\\' then
    let kept ← takeBytes? plain.length plain
    some (kept ++ text.drop plain.length, rest)
  else some (text, rest)

/-- Read a key of a table. -/
def readKey (cs : List Char) : Option (String × List Char) :=
  match cs with
  | '"' :: rest => (readQuoted rest).map fun (text, left) => (String.ofList text, left)
  | _ =>
    match cs.takeWhile isKeyCharacter with
    | [] => none
    | word => some (String.ofList word, cs.dropWhile isKeyCharacter)

/-- Read a key, the sign after it, and a value, with blanks around each. -/
def readPair (value : List Char → Option (Datum × List Char)) (cs : List Char) :
    Option ((String × Datum) × List Char) := do
  let (key, afterKey) ← readKey (skip cs)
  match skip afterKey with
  | '=' :: rest =>
    let (datum, left) ← value rest
    some ((key, datum), skip left)
  | _ => none

/-- Read items with commas between them up to a closing character; a comma may follow the last. -/
def readItems {α : Type} (item : List Char → Option (α × List Char)) (closing : Char) :
    Nat → List Char → Option (List α × List Char)
  | 0, _ => none
  | fuel + 1, cs =>
    if cs.head? = some closing then some ([], cs.tail)
    else do
      let (first, after) ← item cs
      match after with
      | c :: rest =>
        if c = closing then some ([first], rest)
        else if c = ',' then
          let (items, left) ← readItems item closing fuel rest
          some (first :: items, left)
        else none
      | [] => none

/-- Read a value and the blanks around it. -/
def readValue : Nat → List Char → Option (Datum × List Char)
  | 0, _ => none
  | fuel + 1, cs =>
    let reading : Option (Datum × List Char) :=
      match skip cs with
      | 't' :: 'r' :: 'u' :: 'e' :: rest => some (.flag true, rest)
      | 'f' :: 'a' :: 'l' :: 's' :: 'e' :: rest => some (.flag false, rest)
      | '{' :: rest =>
        (readItems (readPair (readValue fuel)) '}' (rest.length + 1) rest).map
          fun (pairs, left) => (Datum.tableOf pairs, left)
      | '[' :: rest =>
        (readItems (readValue fuel) ']' (rest.length + 1) rest).map
          fun (items, left) => (.list items, left)
      | '"' :: rest =>
        (readQuoted rest).map fun (text, left) => (.text (String.ofList text), left)
      | '\'' :: c :: '\'' :: rest => some (.text (String.ofList [c]), rest)
      | '\'' :: _ => none
      | rest =>
        some (bareDatum (trimBlank (rest.takeWhile fun c => !isSeparator c)),
          rest.dropWhile fun c => !isSeparator c)
    reading.map fun (datum, left) => (datum, skip left)

/-- The datum of a variable's value. -/
def parseValue (text : String) : Datum :=
  match readValue (text.length + 1) text.toList with
  | some (datum, []) => datum
  | _ => .text text

/-- Whether a text begins with another one, in any case of ASCII letters; the rest then. -/
def stripMark? : List Char → List Char → Option (List Char)
  | [], rest => some rest
  | m :: mark, c :: rest => if m.toLower = c.toLower then stripMark? mark rest else none
  | _ :: _, [] => none

/-- Two underscores in a row count as a dot. -/
def dotted : List Char → List Char
  | '_' :: '_' :: rest => '.' :: dotted rest
  | c :: rest => c :: dotted rest
  | [] => []

/-- The parts of a text between dots. -/
def splitDots : List Char → List (List Char)
  | [] => [[]]
  | c :: rest =>
    if c = '.' then [] :: splitDots rest
    else
      match splitDots rest with
      | part :: parts => (c :: part) :: parts
      | [] => [[c]]

/-- The key that a variable sets, unless it is none of the settings. -/
def keyOf? (mark name : String) : Option (List String) :=
  (stripMark? mark.toList (trimBlank name.toList)).bind fun rest =>
    let segments := splitDots (trimBlank (dotted rest))
    if segments.contains [] then none
    else some (segments.map fun segment => String.ofList (segment.map Char.toLower))

end Steward.Variables
