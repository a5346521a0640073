import Steward.Binary64.Rank

/-!
# Double-precision numbers

A number of the binary64 format is its sign and its rank: the position of its magnitude among all
magnitudes of the format, counted from zero in increasing order. Ranks turn comparison into
comparison of naturals, and rounding into choosing a rank, so that every operation is exact
arithmetic on naturals followed by one rounding.
-/

namespace Steward

/-- A number of the binary64 format; the payload and the sign of a NaN are not kept. -/
inductive Binary64 where
  | nan
  | number (negative : Bool) (rank : Fin (infinityRank + 1))
  deriving DecidableEq

namespace Binary64

/-- The number of a sign and a rank; a rank above infinity's is infinity. -/
def ofRank (negative : Bool) (rank : Nat) : Binary64 :=
  .number negative ⟨min rank infinityRank, by omega⟩

/-- The number nearest to a signed quotient of smallest subnormals. -/
def nearest (negative : Bool) (numerator denominator : Nat) : Binary64 :=
  ofRank negative (nearestRank numerator denominator)

/-- Positive zero. -/
def zero : Binary64 := ofRank false 0

/-- Infinity of a sign. -/
def infinity (negative : Bool) : Binary64 := ofRank negative infinityRank

/-- The number nearest to a natural. -/
def ofNat (n : Nat) : Binary64 := nearest false (n * unitsPerOne) 1

instance (n : Nat) : OfNat Binary64 n := ⟨ofNat n⟩

instance : Inhabited Binary64 := ⟨zero⟩

/-- Whether a number is neither a NaN nor infinite. -/
def isFinite : Binary64 → Bool
  | .nan => false
  | .number _ rank => rank.val < infinityRank

/-- The place of a number in the order of the format, in which both zeros meet. -/
def order? : Binary64 → Option Int
  | .nan => none
  | .number false rank => some rank.val
  | .number true rank => some (-rank.val)

/-- Whether one number is below another; never for a NaN. -/
def lt (x y : Binary64) : Bool :=
  match x.order?, y.order? with
  | some a, some b => a < b
  | _, _ => false

/-- Whether one number is at most another; never for a NaN. -/
def le (x y : Binary64) : Bool :=
  match x.order?, y.order? with
  | some a, some b => a ≤ b
  | _, _ => false

/-- Whether two numbers are numerically equal: a NaN equals nothing, the zeros each other. -/
def agrees (x y : Binary64) : Bool :=
  match x.order?, y.order? with
  | some a, some b => a = b
  | _, _ => false

/-- The larger of two numbers; a NaN gives way to the other one. -/
def max (x y : Binary64) : Binary64 :=
  match x with
  | .nan => y
  | .number .. => if x.lt y then y else x

end Binary64

end Steward
