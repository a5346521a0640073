import Steward.Binary64.Basic

/-!
# Decimal numbers

A decimal number is an integer shifted by a power of ten. It is rounded to double precision in one
exact step, and laid out in positional notation.
-/

namespace Steward

/-- The number `digits * 10 ^ exponent`. -/
structure Decimal where
  digits : Nat
  exponent : Int
  deriving DecidableEq, Repr

namespace Decimal

/-- The rank nearest to a decimal number, without an upper bound. -/
def rank (d : Decimal) : Nat :=
  nearestRank (d.digits * Nat.pow 10 d.exponent.toNat * unitsPerOne)
    (Nat.pow 10 (-d.exponent).toNat)

/-- The number of digits before the point; zero or negative for a number below a tenth. -/
def leadingPlace (d : Decimal) : Int := (Nat.toDigits 10 d.digits).length + d.exponent

/-- The double-precision number nearest to a signed decimal number. A leading place far outside the
range of the format decides the result without any arithmetic. -/
def toBinary64 (negative : Bool) (d : Decimal) : Binary64 :=
  if d.digits = 0 then .ofRank negative 0
  else if 320 < d.leadingPlace then .infinity negative
  else if d.leadingPlace < -340 then .ofRank negative 0
  else .ofRank negative d.rank

/-- The digits around the point in positional notation: those before it, never none, and those
after it. -/
def split (d : Decimal) : List Char × List Char :=
  let written := Nat.toDigits 10 d.digits ++ List.replicate d.exponent.toNat '0'
  let fraction := (-d.exponent).toNat
  let padded := List.replicate (fraction + 1 - written.length) '0' ++ written
  padded.splitAt (padded.length - fraction)

end Decimal

end Steward
