import Steward.Toml.Lexical
import Steward.Datum
import Steward.Word
import Steward.Timestamp

/-!
# Numbers and dates of settings files

Integers are signed 64-bit words in four bases, with underscores between digits. Other numbers need
digits on both sides of the point. Dates and times are recognised and checked; no setting is a date,
so nothing of them is kept.
-/

namespace Steward.Toml

/-- Read digits that pass a test, with single underscores between them. -/
def readDigits (test : Char → Bool) : List Char → List Char × List Char
  | c :: '_' :: d :: rest =>
    if test c then
      if test d then
        let (digits, left) := readDigits test (d :: rest)
        (c :: digits, left)
      else ([c], '_' :: d :: rest)
    else ([], c :: '_' :: d :: rest)
  | c :: rest =>
    if test c then
      let (digits, left) := readDigits test rest
      (c :: digits, left)
    else ([], c :: rest)
  | [] => ([], [])

/-- Read a sign, if there is one. -/
def readSign : List Char → List Char × List Char
  | '-' :: rest => (['-'], rest)
  | '+' :: rest => (['+'], rest)
  | cs => ([], cs)

/-- Read decimal digits without a needless zero in front. -/
def readWhole (cs : List Char) : Option (List Char × List Char) :=
  match cs with
  | '0' :: rest => some (['0'], rest)
  | _ =>
    match readDigits Char.isDigit cs with
    | ([], _) => none
    | (digits, rest) => some (digits, rest)

/-- The range of integers. -/
def inRange (n : Int) : Bool := -(signBound : Int) ≤ n && n < signBound

/-- Read an integer in another base after its mark. -/
def readBased (base : Nat) (cs : List Char) : Option (Datum × List Char) :=
  match readDigits (fun c => (digitsInBase? base [c]).isSome) cs with
  | ([], _) => none
  | (digits, rest) =>
    match digitsInBase? base digits with
    | some n => if inRange n then some (.integer n, rest) else none
    | none => none

/-- Read the fraction of a number after its whole part, with the point, if there is one. -/
def readFraction (cs : List Char) : Option (List Char × List Char) :=
  match cs with
  | '.' :: rest =>
    match readDigits Char.isDigit rest with
    | ([], _) => none
    | (digits, left) => some ('.' :: digits, left)
  | _ => some ([], cs)

/-- Read the exponent of a number, with its mark, if there is one. -/
def readExponentPart (cs : List Char) : Option (List Char × List Char) :=
  match cs with
  | mark :: rest =>
    if mark = 'e' ∨ mark = 'E' then
      let (sign, body) := readSign rest
      match readDigits Char.isDigit body with
      | ([], _) => none
      | (digits, left) => some ('e' :: sign ++ digits, left)
    else some ([], cs)
  | [] => some ([], [])

/-- The number of a sign, a whole part and what follows it; a positive number beyond the range is
refused. -/
def numberOf (sign whole tail : List Char) (rest : List Char) : Option (Datum × List Char) :=
  if tail = [] then
    let n : Int := digitsValue whole
    let value := if sign = ['-'] then -n else n
    if inRange value then some (.integer value, rest) else none
  else
    match readBinary64? (sign ++ whole ++ tail) with
    | some x => if x = .infinity false then none else some (.real x, rest)
    | none => none

/-- Read a decimal number. -/
def readDecimalNumber (cs : List Char) : Option (Datum × List Char) := do
  let (sign, body) := readSign cs
  let (whole, afterWhole) ← readWhole body
  let (fraction, afterFraction) ← readFraction afterWhole
  let (exponent, rest) ← readExponentPart afterFraction
  numberOf sign whole (fraction ++ exponent) rest

/-- Read a word that stands for a number without digits. -/
def readNumberWord (cs : List Char) : Option (Datum × List Char) :=
  let (sign, body) := readSign cs
  match body with
  | 'i' :: 'n' :: 'f' :: rest => some (.real (.infinity (sign = ['-'])), rest)
  | 'n' :: 'a' :: 'n' :: rest => some (.real .nan, rest)
  | _ => none

/-- Read a number. -/
def readNumber (cs : List Char) : Option (Datum × List Char) :=
  match cs with
  | '0' :: 'x' :: rest => readBased 16 rest
  | '0' :: 'o' :: rest => readBased 8 rest
  | '0' :: 'b' :: rest => readBased 2 rest
  | _ => readNumberWord cs <|> readDecimalNumber cs

/-- Two digits as a number, up to a bound. -/
def twoDigits? (bound : Nat) (a b : Char) : Option Nat :=
  if a.isDigit && b.isDigit && digitsValue [a, b] ≤ bound then some (digitsValue [a, b]) else none

/-- Skip the fraction of a second. -/
def skipSecondFraction : List Char → Option (List Char)
  | '.' :: c :: rest => if c.isDigit then some (rest.dropWhile Char.isDigit) else none
  | '.' :: [] => none
  | cs => some cs

/-- Skip a time of day; a leap second is one. -/
def skipTime : List Char → Option (List Char)
  | a :: b :: ':' :: c :: d :: ':' :: e :: f :: rest =>
    match twoDigits? 23 a b, twoDigits? 59 c d, twoDigits? 60 e f with
    | some _, some _, some _ => skipSecondFraction rest
    | _, _, _ => none
  | _ => none

/-- Skip an offset from universal time, if there is one. -/
def skipOffset (cs : List Char) : Option (List Char) :=
  match cs with
  | 'Z' :: rest => some rest
  | 'z' :: rest => some rest
  | sign :: a :: b :: ':' :: c :: d :: rest =>
    if sign = '+' ∨ sign = '-' then
      match twoDigits? 23 a b, twoDigits? 59 c d with
      | some _, some _ => some rest
      | _, _ => none
    else some cs
  | _ => some cs

/-- Skip a time of day and an offset after a date, if there are any. -/
def skipTimeOfDate (cs : List Char) : Option (List Char) :=
  match cs with
  | mark :: rest =>
    if mark = 'T' ∨ mark = 't' ∨ mark = ' ' then
      match skipTime rest with
      | some after => skipOffset after
      | none => if mark = ' ' then some cs else none
    else some cs
  | [] => some []

/-- Skip a date, if the text begins with four digits and a dash: whether it did, and the rest. -/
def skipDate? : List Char → Option (Option (List Char))
  | y1 :: y2 :: y3 :: y4 :: '-' :: rest =>
    if [y1, y2, y3, y4].all Char.isDigit then
      match rest with
      | m1 :: m2 :: '-' :: d1 :: d2 :: after =>
        match twoDigits? 12 m1 m2, twoDigits? 31 d1 d2 with
        | some month, some day =>
          if 1 ≤ day ∧ day ≤ daysInMonth (digitsValue [y1, y2, y3, y4]) month then
            some (skipTimeOfDate after)
          else some none
        | _, _ => some none
      | _ => some none
    else none
  | _ => none

/-- Whether the text begins like a time of day. -/
def startsTime : List Char → Bool
  | a :: b :: ':' :: _ => a.isDigit && b.isDigit
  | _ => false

/-- Read a number, a date or a time. What is read of a date is a table without entries. -/
def readScalar (cs : List Char) : Option (Datum × List Char) :=
  match skipDate? cs with
  | some (some rest) => some (.table [], rest)
  | some none => none
  | none =>
    if startsTime cs then (skipTime cs).map fun rest => (.table [], rest)
    else readNumber cs

end Steward.Toml
