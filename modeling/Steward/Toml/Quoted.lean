import Steward.Toml.Lexical

/-!
# Quoted text

Text stands in one of four quotes. Basic quotes know escapes and literal quotes know none; each of
them may be tripled, and then the text may run over several lines. A text is written in the simplest
quotes that can hold it.
-/

namespace Steward.Toml

/-- The character of a code point written in hexadecimal digits. -/
def codePoint? (digits : List Char) : Option Char :=
  match digitsInBase? 16 digits with
  | some code => if code.isValidChar then some (Char.ofNat code) else none
  | none => none

/-- The character that a backslash and a letter stand for. -/
def escaped? : Char → Option Char
  | 'b' => some '\x08'
  | 't' => some '\t'
  | 'n' => some '\n'
  | 'f' => some '\x0c'
  | 'r' => some '\r'
  | '"' => some '"'
  | '\\' => some '\\'
  | _ => none

/-- Put a character in front of text that was read. -/
def push (c : Char) (reading : Option (List Char × List Char)) : Option (List Char × List Char) :=
  reading.map fun (text, rest) => (c :: text, rest)

/-- Put a character in front of text that was read, if there is one. -/
def push? (c : Option Char) (reading : Option (List Char × List Char)) :
    Option (List Char × List Char) :=
  match c with
  | some c => push c reading
  | none => none

/-- Read basic text after its opening quote. -/
def readBasic : List Char → Option (List Char × List Char)
  | '"' :: rest => some ([], rest)
  | '\\' :: 'u' :: a :: b :: c :: d :: rest => push? (codePoint? [a, b, c, d]) (readBasic rest)
  | '\\' :: 'U' :: a :: b :: c :: d :: e :: f :: g :: h :: rest =>
    push? (codePoint? [a, b, c, d, e, f, g, h]) (readBasic rest)
  | '\\' :: c :: rest => push? (escaped? c) (readBasic rest)
  | c :: rest => if isControl c then none else push c (readBasic rest)
  | [] => none

/-- Read literal text after its opening quote. -/
def readLiteral : List Char → Option (List Char × List Char)
  | '\'' :: rest => some ([], rest)
  | c :: rest => if isControl c then none else push c (readLiteral rest)
  | [] => none

/-- Whether only blanks stand before the next line end. -/
def lineEndsHere (cs : List Char) : Bool := (lineEnd? (skipBlanks cs)).isSome

/-- Read basic text after its three opening quotes; after a backslash at the end of a line, blanks
and line ends are skipped. -/
def readLongBasic (skipping : Bool) : List Char → Option (List Char × List Char)
  | '"' :: '"' :: '"' :: '"' :: '"' :: rest => some (['"', '"'], rest)
  | '"' :: '"' :: '"' :: '"' :: rest => some (['"'], rest)
  | '"' :: '"' :: '"' :: rest => some ([], rest)
  | '\r' :: '\n' :: rest =>
    if skipping then readLongBasic true rest else push '\n' (readLongBasic false rest)
  | '\n' :: rest =>
    if skipping then readLongBasic true rest else push '\n' (readLongBasic false rest)
  | '\\' :: 'u' :: a :: b :: c :: d :: rest =>
    push? (codePoint? [a, b, c, d]) (readLongBasic false rest)
  | '\\' :: 'U' :: a :: b :: c :: d :: e :: f :: g :: h :: rest =>
    push? (codePoint? [a, b, c, d, e, f, g, h]) (readLongBasic false rest)
  | '\\' :: c :: rest =>
    if lineEndsHere (c :: rest) then readLongBasic true (c :: rest)
    else push? (escaped? c) (readLongBasic false rest)
  | c :: rest =>
    if isControl c then none
    else if skipping && isBlank c then readLongBasic true rest
    else push c (readLongBasic false rest)
  | [] => none

/-- Read literal text after its three opening quotes. -/
def readLongLiteral : List Char → Option (List Char × List Char)
  | '\'' :: '\'' :: '\'' :: '\'' :: '\'' :: rest => some (['\'', '\''], rest)
  | '\'' :: '\'' :: '\'' :: '\'' :: rest => some (['\''], rest)
  | '\'' :: '\'' :: '\'' :: rest => some ([], rest)
  | '\r' :: '\n' :: rest => push '\n' (readLongLiteral rest)
  | '\n' :: rest => push '\n' (readLongLiteral rest)
  | c :: rest => if isControl c then none else push c (readLongLiteral rest)
  | [] => none

/-- A line end right after three opening quotes does not belong to the text. -/
def dropFirstLineEnd (cs : List Char) : List Char := (lineEnd? cs).getD cs

/-- Read text in any quotes. -/
def readText : List Char → Option (List Char × List Char)
  | '"' :: '"' :: '"' :: rest => readLongBasic false (dropFirstLineEnd rest)
  | '"' :: rest => readBasic rest
  | '\'' :: '\'' :: '\'' :: rest => readLongLiteral (dropFirstLineEnd rest)
  | '\'' :: rest => readLiteral rest
  | _ => none

/-- The length of the longest run of a character, given the length of the run so far. -/
def longestRun (target : Char) (current : Nat) : List Char → Nat
  | [] => current
  | c :: rest =>
    if c = target then longestRun target (current + 1) rest
    else max current (longestRun target 0 rest)

/-- The digit of a value below sixteen. -/
def upperHex (n : Nat) : Char := (Nat.digitChar n).toUpper

/-- Four hexadecimal digits. -/
def fourHex (n : Nat) : List Char :=
  [upperHex (n / 4096 % 16), upperHex (n / 256 % 16), upperHex (n / 16 % 16), upperHex (n % 16)]

/-- The escape of a character other than a quote, if basic text needs one. -/
def escape? (long : Bool) (c : Char) : Option (List Char) :=
  if c = '\x08' then some ['\\', 'b']
  else if c = '\t' then some ['\\', 't']
  else if c = '\n' then if long then none else some ['\\', 'n']
  else if c = '\x0c' then some ['\\', 'f']
  else if c = '\r' then some ['\\', 'r']
  else if c = '\\' then some ['\\', '\\']
  else if isControl c then some ('\\' :: 'u' :: fourHex c.toNat)
  else none

/-- The inside of basic text; of quotes in a row, as many stand bare as the closing quotes allow. -/
def writeBasicInside (long : Bool) (allowed run : Nat) : List Char → List Char
  | [] => []
  | c :: rest =>
    if c = '"' then
      if run < allowed then '"' :: writeBasicInside long allowed (run + 1) rest
      else '\\' :: '"' :: writeBasicInside long allowed 0 rest
    else
      match escape? long c with
      | some escape => escape ++ writeBasicInside long allowed 0 rest
      | none => c :: writeBasicInside long allowed 0 rest

/-- The quotes that text can stand in. -/
inductive Quotes where
  | basic
  | literal
  | longBasic
  | longLiteral
  deriving DecidableEq, Repr

/-- The simplest quotes that hold a text. -/
def quotesFor (text : List Char) : Quotes :=
  let lines := text.contains '\n'
  let controls := text.any fun c => isControl c && c ≠ '\n'
  let backslash := text.contains '\\'
  let quoteRun := longestRun '"' 0 text
  let apostropheRun := longestRun '\'' 0 text
  if !lines && !controls && !backslash && quoteRun = 0 then .basic
  else if !lines && !controls && apostropheRun = 0 then .literal
  else if !controls && !backslash && quoteRun ≤ 2 then .longBasic
  else if !controls && apostropheRun ≤ 2 then .longLiteral
  else if lines then .longBasic
  else .basic

/-- Text in given quotes. After three quotes, text of several lines begins on a line of its own. -/
def writeTextIn (quotes : Quotes) (text : List Char) : List Char :=
  let opening := if text.contains '\n' then ['\n'] else []
  match quotes with
  | .basic => '"' :: writeBasicInside false 0 0 text ++ ['"']
  | .literal => '\'' :: text ++ ['\'']
  | .longBasic => ['"', '"', '"'] ++ opening ++ writeBasicInside true 2 0 text ++ ['"', '"', '"']
  | .longLiteral => ['\'', '\'', '\''] ++ opening ++ text ++ ['\'', '\'', '\'']

/-- Text in the simplest quotes that hold it. -/
def writeText (text : List Char) : List Char := writeTextIn (quotesFor text) text

end Steward.Toml
