import Steward.Binary64.Basic

/-!
# Arithmetic on double-precision numbers

Each operation works on exact integers of smallest subnormals and rounds once. The cases of NaN,
infinity and signed zero stand in front.
-/

namespace Steward.Binary64

/-- The number of an exact integer of smallest subnormals; an exact zero takes the given sign. -/
def ofUnits (zeroNegative : Bool) (units : Int) : Binary64 :=
  if units = 0 then ofRank zeroNegative 0
  else nearest (decide (units < 0)) units.natAbs 1

/-- A sign and a magnitude as an integer. -/
def signed (negative : Bool) (magnitude : Nat) : Int :=
  if negative then -(magnitude : Int) else magnitude

/-- The opposite number. -/
def neg : Binary64 → Binary64
  | .nan => .nan
  | .number negative rank => .number (!negative) rank

/-- The rounded sum. -/
def add : Binary64 → Binary64 → Binary64
  | .number s a, .number t b =>
    if a.val = infinityRank then
      if b.val = infinityRank ∧ s ≠ t then .nan else .number s a
    else if b.val = infinityRank then .number t b
    else ofUnits (s && t) (signed s (rankUnits a) + signed t (rankUnits b))
  | _, _ => .nan

/-- The rounded difference. -/
def sub (x y : Binary64) : Binary64 := x.add y.neg

/-- The rounded product. -/
def mul : Binary64 → Binary64 → Binary64
  | .number s a, .number t b =>
    if a.val = infinityRank ∨ b.val = infinityRank then
      if a.val = 0 ∨ b.val = 0 then .nan else infinity (s != t)
    else nearest (s != t) (rankUnits a * rankUnits b) unitsPerOne
  | _, _ => .nan

/-- The rounded quotient. -/
def div : Binary64 → Binary64 → Binary64
  | .number s a, .number t b =>
    if a.val = infinityRank then
      if b.val = infinityRank then .nan else infinity (s != t)
    else if b.val = infinityRank then ofRank (s != t) 0
    else if b.val = 0 then
      if a.val = 0 then .nan else infinity (s != t)
    else nearest (s != t) (rankUnits a * unitsPerOne) (rankUnits b)
  | _, _ => .nan

instance : Neg Binary64 := ⟨neg⟩
instance : Add Binary64 := ⟨add⟩
instance : Sub Binary64 := ⟨sub⟩
instance : Mul Binary64 := ⟨mul⟩
instance : Div Binary64 := ⟨div⟩

/-- The greatest natural not above a number, kept between zero and a bound; zero for a NaN. -/
def floorUpTo (bound : Nat) : Binary64 → Nat
  | .nan => 0
  | .number true _ => 0
  | .number false rank => min bound (rankUnits rank / unitsPerOne)

end Steward.Binary64
