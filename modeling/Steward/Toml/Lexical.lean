/-!
# The characters of settings files

Settings files are lines of TOML. Here stand the classes of characters, and what is skipped between
tokens: blanks, comments and line ends.
-/

namespace Steward.Toml

/-- Blanks within a line. -/
def isBlank (c : Char) : Bool := c = ' ' || c = '\t'

/-- Control characters; a tab is none. -/
def isControl (c : Char) : Bool := (c.toNat < 0x20 && c ≠ '\t') || c.toNat = 0x7f

/-- Characters of a bare key. -/
def isBare (c : Char) : Bool := c.isAlphanum || c = '_' || c = '-'

/-- The value of a hexadecimal digit. -/
def hexValue? (c : Char) : Option Nat :=
  if c.isDigit then some (c.toNat - '0'.toNat)
  else if 'a' ≤ c ∧ c ≤ 'f' then some (c.toNat - 'a'.toNat + 10)
  else if 'A' ≤ c ∧ c ≤ 'F' then some (c.toNat - 'A'.toNat + 10)
  else none

/-- The value of digits in a base up to sixteen. -/
def digitsInBase? (base : Nat) (digits : List Char) : Option Nat :=
  digits.foldlM (fun value c =>
    match hexValue? c with
    | some digit => if digit < base then some (base * value + digit) else none
    | none => none) 0

/-- Skip blanks. -/
def skipBlanks (cs : List Char) : List Char := cs.dropWhile isBlank

/-- Skip a comment up to the end of its line. -/
def skipComment : List Char → List Char
  | '#' :: rest => rest.dropWhile fun c => !isControl c
  | cs => cs

/-- Read a line end. -/
def lineEnd? : List Char → Option (List Char)
  | '\n' :: rest => some rest
  | '\r' :: '\n' :: rest => some rest
  | _ => none

/-- Read what may follow on a line after its content: blanks, a comment, and the end of the line or
of the text. -/
def restOfLine? (cs : List Char) : Option (List Char) :=
  match skipComment (skipBlanks cs) with
  | [] => some []
  | rest => lineEnd? rest

/-- Skip blanks, comments and line ends; each step takes a line. -/
def skipLines : Nat → List Char → List Char
  | 0, cs => cs
  | fuel + 1, cs =>
    match skipComment (skipBlanks cs) with
    | [] => []
    | rest =>
      match lineEnd? rest with
      | some next => skipLines fuel next
      | none => rest

/-- Skip everything between two items that may stand on different lines. -/
def skipSpace (cs : List Char) : List Char := skipLines cs.length cs

end Steward.Toml
