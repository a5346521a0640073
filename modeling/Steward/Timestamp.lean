import Steward.Decimal.Reading

/-!
# Timestamps

A point of calendar time in whole seconds of universal time, written as `2024-02-29T12:34:56Z`.
-/

namespace Steward

/-- A point of calendar time. -/
structure Timestamp where
  year : Nat
  month : Nat
  day : Nat
  hour : Nat
  minute : Nat
  second : Nat
  deriving DecidableEq

/-- The days of a month; none for a number that names no month. -/
def daysInMonth (year month : Nat) : Nat :=
  if month = 2 then
    if year % 4 = 0 ∧ (year % 100 ≠ 0 ∨ year % 400 = 0) then 29 else 28
  else if month = 4 ∨ month = 6 ∨ month = 9 ∨ month = 11 then 30
  else if 1 ≤ month ∧ month ≤ 12 then 31
  else 0

namespace Timestamp

/-- Whether each part lies in its range. -/
def isValid (t : Timestamp) : Bool :=
  1 ≤ t.day && t.day ≤ daysInMonth t.year t.month && t.hour < 24 && t.minute < 60 && t.second < 60

/-- Digits with zeros in front up to a width. -/
def padded (width n : Nat) : String :=
  let digits := Nat.toDigits 10 n
  String.ofList (List.replicate (width - digits.length) '0' ++ digits)

/-- The written form of a timestamp. -/
def text (t : Timestamp) : String :=
  padded 4 t.year ++ "-" ++ padded 2 t.month ++ "-" ++ padded 2 t.day ++ "T" ++
    padded 2 t.hour ++ ":" ++ padded 2 t.minute ++ ":" ++ padded 2 t.second ++ "Z"

/-- The timestamp of a written form. -/
def ofText? (text : String) : Option Timestamp :=
  match text.toList with
  | [y1, y2, y3, y4, '-', m1, m2, '-', d1, d2, 'T', h1, h2, ':', n1, n2, ':', s1, s2, 'Z'] =>
    let digits := [y1, y2, y3, y4, m1, m2, d1, d2, h1, h2, n1, n2, s1, s2]
    let time : Timestamp :=
      ⟨digitsValue [y1, y2, y3, y4], digitsValue [m1, m2], digitsValue [d1, d2],
        digitsValue [h1, h2], digitsValue [n1, n2], digitsValue [s1, s2]⟩
    if digits.all Char.isDigit && time.isValid then some time else none
  | _ => none

end Timestamp

end Steward
