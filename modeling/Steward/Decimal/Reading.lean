import Steward.Decimal.Basic

/-!
# Reading decimal text

The accepted texts are an optional sign before either one of the words for infinity and NaN in any
case, or digits with an optional point among or around them and an optional signed exponent. The
value is rounded correctly whatever the number of digits.
-/

namespace Steward

/-- The natural that digits stand for. -/
def digitsValue (digits : List Char) : Nat := Nat.ofDigitChars 10 digits 0

/-- A sign and the rest; without a sign the number is positive. -/
def splitSign : List Char → Bool × List Char
  | '-' :: rest => (true, rest)
  | '+' :: rest => (false, rest)
  | rest => (false, rest)

/-- An integer of digits, at least one, with an optional sign. -/
def readExponent? (text : List Char) : Option Int :=
  match splitSign text with
  | (_, []) => none
  | (negative, digits) =>
    if digits.all Char.isDigit then
      some (if negative then -(digitsValue digits : Int) else digitsValue digits)
    else none

/-- Digits and a following fraction as one integer and its scale, and what follows. -/
def splitMantissa (text : List Char) : List Char × List Char × List Char :=
  let whole := text.takeWhile Char.isDigit
  match text.dropWhile Char.isDigit with
  | '.' :: rest => (whole, rest.takeWhile Char.isDigit, rest.dropWhile Char.isDigit)
  | rest => (whole, [], rest)

/-- The decimal number that an unsigned text denotes. -/
def readDecimal? (text : List Char) : Option Decimal :=
  match splitMantissa text with
  | (whole, fraction, rest) =>
    if whole = [] ∧ fraction = [] then none
    else
      let digits := digitsValue (whole ++ fraction)
      let scale : Int := -fraction.length
      match rest with
      | [] => some ⟨digits, scale⟩
      | mark :: exponent =>
        if mark = 'e' ∨ mark = 'E' then
          (readExponent? exponent).map fun e => ⟨digits, scale + e⟩
        else none

/-- The number that a text denotes. -/
def readBinary64? (text : List Char) : Option Binary64 :=
  match splitSign text with
  | (negative, magnitude) =>
    let word := String.ofList (magnitude.map Char.toLower)
    if word = "inf" ∨ word = "infinity" then some (.infinity negative)
    else if word = "nan" then some .nan
    else (readDecimal? magnitude).map (Decimal.toBinary64 negative)

/-- The number that a string denotes. -/
def Binary64.ofText? (text : String) : Option Binary64 := readBinary64? text.toList

end Steward
