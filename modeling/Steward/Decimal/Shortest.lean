import Steward.Decimal.Basic

/-!
# The shortest decimal text of a double-precision number

The text of a number has the fewest digits that read back to the same number, and among those the
nearest to it. For one digit count after the other the two neighbours of the number on that decimal
grid are tried; the first grid with a neighbour that reads back decides. An exact tie goes up.
-/

namespace Steward

/-- The neighbour of a magnitude on the grid of multiples of a power of ten that rounds back to the
magnitude; of two such neighbours the nearer one. -/
def neighbour? (rank : Nat) (exponent : Int) : Option Decimal :=
  let numerator := rankUnits rank * Nat.pow 10 (-exponent).toNat
  let step := unitsPerOne * Nat.pow 10 exponent.toNat
  let lower : Decimal := ⟨numerator / step, exponent⟩
  let upper : Decimal := ⟨numerator / step + 1, exponent⟩
  if lower.rank = rank ∧ (upper.rank ≠ rank ∨ 2 * (numerator % step) < step) then some lower
  else if upper.rank = rank then some upper
  else none

/-- A magnitude with all its decimal digits. -/
def exactDecimal (rank : Nat) : Decimal := ⟨rankUnits rank * Nat.pow 5 1074, -1074⟩

/-- The number of digits before the point of a positive magnitude. -/
def magnitudePlace (rank : Nat) : Int :=
  (Nat.toDigits 10 (rankUnits rank * Nat.pow 10 324 / unitsPerOne)).length - 324

/-- The decimal number of fewest digits that rounds to a finite magnitude. -/
def shortestDecimal (rank : Nat) : Decimal :=
  if rank = 0 then ⟨0, 0⟩
  else
    ((List.range 18).findSome? fun (digits : Nat) =>
      neighbour? rank (magnitudePlace rank - digits)).getD (exactDecimal rank)

/-- How numbers are written: the words for what is no finite number, and whether an integral number
carries a fraction. -/
structure NumberStyle where
  nanWord : List Char
  infinityWord : List Char
  integralFraction : List Char

/-- Numbers in messages: an integral number has no point. -/
def NumberStyle.message : NumberStyle := ⟨['N', 'a', 'N'], ['i', 'n', 'f'], []⟩

/-- Numbers in settings files: a point tells them from integers. -/
def NumberStyle.settings : NumberStyle := ⟨['n', 'a', 'n'], ['i', 'n', 'f'], ['.', '0']⟩

/-- A number in positional notation with the fewest digits. -/
def Binary64.chars (style : NumberStyle) : Binary64 → List Char
  | .nan => style.nanWord
  | .number negative rank =>
    (if negative then ['-'] else []) ++
      if rank.val = infinityRank then style.infinityWord
      else
        match (shortestDecimal rank).split with
        | (whole, []) => whole ++ style.integralFraction
        | (whole, fraction) => whole ++ '.' :: fraction

/-- A number as messages show it. -/
def Binary64.text (x : Binary64) : String := String.ofList (x.chars .message)

end Steward
