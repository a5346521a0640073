/-!
# Ranks of magnitudes

The magnitudes of the binary64 format are numbered from zero in increasing order. The exponent field
of the format is the high part of this rank, so that stepping past the end of one binade lands at
the start of the next, and rounding a quotient is one division with a half going to even.
-/

namespace Steward

/-- Magnitudes in one binade. -/
def binadeSize : Nat := 4503599627370496

/-- The rank of infinity, next after the largest finite magnitude. -/
def infinityRank : Nat := 2047 * binadeSize

/-- The power of two that a magnitude's last bit stands for, in smallest subnormals. -/
def rankExponent (rank : Nat) : Nat := rank / binadeSize - 1

/-- The integer that a magnitude multiplies its last bit with. -/
def rankSignificand (rank : Nat) : Nat := rank - rankExponent rank * binadeSize

/-- The magnitude of a rank, counted in smallest subnormals of `2 ^ -1074`. -/
def rankUnits (rank : Nat) : Nat := rankSignificand rank * Nat.pow 2 (rankExponent rank)

/-- Smallest subnormals in one. -/
def unitsPerOne : Nat := Nat.pow 2 1074

/-- The integer nearest to a quotient; a half goes to the even neighbour. -/
def nearestQuotient (numerator denominator : Nat) : Nat :=
  let quotient := numerator / denominator
  let rest := 2 * (numerator % denominator)
  if rest < denominator then quotient
  else if denominator < rest then quotient + 1
  else quotient + quotient % 2

/-- The rank nearest to a quotient of smallest subnormals, without an upper bound. -/
def nearestRank (numerator denominator : Nat) : Nat :=
  let exponent := (numerator / denominator).log2 - 52
  exponent * binadeSize + nearestQuotient numerator (denominator * Nat.pow 2 exponent)

end Steward
