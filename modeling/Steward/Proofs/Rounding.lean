import Steward.Binary64.Arithmetic
import Mathlib.Algebra.Order.Field.Rat
import Mathlib.Order.Monotone.Basic
import Mathlib.Tactic.Ring
import Mathlib.Tactic.SplitIfs

/-!
# Rounding

Ranks stand for magnitudes in increasing order, each one step of its binade after the one before.
The rank nearest to a quotient is off by half a step at most, so wherever the quotient reaches the
first full binade, a rounded magnitude is off by at most one part in `2 ^ 53`, and whole numbers
below `2 ^ 53` are not rounded at all.
-/

namespace Steward

/-! ## Magnitudes in their order -/

theorem binadeSize_eq : binadeSize = 2 ^ 52 := by decide

/-- The first rank is that of zero. -/
@[simp] theorem rankUnits_zero : rankUnits 0 = 0 := rfl

/-- A rank is an exponent and a significand. -/
theorem rank_eq (rank : Nat) :
    rank = rankExponent rank * binadeSize + rankSignificand rank ∧
      rankSignificand rank < 2 * binadeSize ∧
      (binadeSize ≤ rankSignificand rank ∨ rankExponent rank = 0) := by
  unfold rankSignificand rankExponent binadeSize
  omega

/-- The magnitude of an exponent and a significand; the end of a binade is the start of the next. -/
theorem rankUnits_of_exponent {exponent significand : Nat}
    (hlow : binadeSize ≤ significand ∨ exponent = 0) (hhigh : significand ≤ 2 * binadeSize) :
    rankUnits (exponent * binadeSize + significand) = significand * 2 ^ exponent := by
  have hsize : 0 < binadeSize := by decide
  by_cases hend : significand = 2 * binadeSize
  · subst hend
    have hexponent : rankExponent (exponent * binadeSize + 2 * binadeSize) = exponent + 1 := by
      rw [rankExponent, ← Nat.add_mul, Nat.mul_div_cancel _ hsize]
      omega
    rw [rankUnits, rankSignificand, hexponent, Nat.pow_eq, pow_succ, Nat.add_mul]
    rw [show exponent * binadeSize + 2 * binadeSize - (exponent * binadeSize + 1 * binadeSize) =
      binadeSize by omega]
    ring
  · have hexponent : rankExponent (exponent * binadeSize + significand) = exponent := by
      unfold rankExponent
      unfold binadeSize at *
      omega
    rw [rankUnits, rankSignificand, hexponent, Nat.add_sub_cancel_left, Nat.pow_eq]

/-- From one rank to the next the magnitude grows by one step of the binade. -/
theorem rankUnits_succ (rank : Nat) :
    rankUnits (rank + 1) = rankUnits rank + 2 ^ rankExponent rank := by
  obtain ⟨hrank, hhigh, hlow⟩ := rank_eq rank
  have hnext : rankUnits (rankExponent rank * binadeSize + (rankSignificand rank + 1)) =
      (rankSignificand rank + 1) * 2 ^ rankExponent rank :=
    rankUnits_of_exponent (hlow.imp_left fun hlow => hlow.trans (Nat.le_succ _)) hhigh
  rw [← Nat.add_assoc, ← hrank] at hnext
  rw [hnext, rankUnits, Nat.pow_eq]
  ring

/-- Magnitudes increase with their ranks. -/
theorem rankUnits_strictMono : StrictMono rankUnits :=
  strictMono_nat_of_lt_succ fun rank => by
    rw [rankUnits_succ]
    exact Nat.lt_add_of_pos_right (Nat.two_pow_pos _)

/-- A magnitude differs from every smaller one by one part in `2 ^ 53` of it at least. -/
theorem rankUnits_gap {rank below : Nat} (hlt : below < rank) :
    rankUnits rank ≤ 2 ^ 53 * (rankUnits rank - rankUnits below) := by
  obtain ⟨previous, rfl⟩ := Nat.exists_eq_add_of_lt hlt
  obtain ⟨-, hhigh, -⟩ := rank_eq (below + previous)
  have hstep := rankUnits_succ (below + previous)
  have hbelow : rankUnits below ≤ rankUnits (below + previous) :=
    rankUnits_strictMono.monotone (Nat.le_add_right _ _)
  have hlast : rankUnits (below + previous) + 2 ^ rankExponent (below + previous) ≤
      2 ^ 53 * 2 ^ rankExponent (below + previous) := by
    rw [rankUnits, Nat.pow_eq, ← Nat.succ_mul]
    rw [binadeSize_eq] at hhigh
    exact Nat.mul_le_mul_right _ hhigh
  omega

/-! ## The nearest quotient -/

section Quotient

variable {num den bound : Nat}

variable (num) in
/-- The nearest integer is off by half at most. -/
theorem nearestQuotient_bounds (hden : 0 < den) :
    2 * (den * nearestQuotient num den) ≤ 2 * num + den ∧
      2 * num ≤ 2 * (den * nearestQuotient num den) + den := by
  have hdiv := Nat.div_add_mod num den
  have hrest := Nat.mod_lt num hden
  simp only [nearestQuotient]
  split_ifs with hbelow habove
  · omega
  · rw [Nat.mul_add]
    omega
  · rcases Nat.mod_two_eq_zero_or_one (num / den) with heven | hodd
    · rw [heven, Nat.add_zero]
      omega
    · rw [hodd, Nat.mul_add]
      omega

/-- The nearest integer is at least any integer below the quotient. -/
theorem le_nearestQuotient (hden : 0 < den) (hle : den * bound ≤ num) :
    bound ≤ nearestQuotient num den := by
  have hquotient : bound ≤ num / den := (Nat.le_div_iff_mul_le hden).2 (by rwa [Nat.mul_comm])
  simp only [nearestQuotient]
  split_ifs <;> omega

/-- The nearest integer is at most any integer above the quotient. -/
theorem nearestQuotient_le (hlt : num < den * bound) : nearestQuotient num den ≤ bound := by
  have hquotient : num / den < bound := Nat.div_lt_of_lt_mul hlt
  simp only [nearestQuotient]
  split_ifs <;> omega

/-- An integer quotient is its own nearest integer. -/
theorem nearestQuotient_mul (hden : 0 < den) (quotient : Nat) :
    nearestQuotient (den * quotient) den = quotient := by
  simp [nearestQuotient, Nat.mul_div_cancel_left _ hden, hden]

/-! ## The nearest rank -/

/-- The exponent of the binade that a quotient of smallest subnormals falls into. -/
def quotientExponent (num den : Nat) : Nat := (num / den).log2 - 52

variable (num) in
/-- A quotient lies below the end of its binade, and not before its start. -/
theorem quotientExponent_spec (hden : 0 < den) :
    num < den * 2 ^ quotientExponent num den * 2 ^ 53 ∧
      (quotientExponent num den = 0 ∨ den * 2 ^ quotientExponent num den * 2 ^ 52 ≤ num) := by
  have hbelow : num / den < 2 ^ ((num / den).log2 + 1) := Nat.lt_log2_self
  constructor
  · have hpower : 2 ^ ((num / den).log2 + 1) ≤ 2 ^ (quotientExponent num den + 53) :=
      Nat.pow_le_pow_right (by decide) (by unfold quotientExponent; omega)
    have hquotient := hbelow.trans_le hpower
    rw [Nat.div_lt_iff_lt_mul hden, pow_add] at hquotient
    calc num < 2 ^ quotientExponent num den * 2 ^ 53 * den := hquotient
      _ = den * 2 ^ quotientExponent num den * 2 ^ 53 := by ring
  · rcases Nat.eq_zero_or_pos (quotientExponent num den) with hzero | hpositive
    · exact .inl hzero
    · refine .inr ?_
      have hexponent : quotientExponent num den + 52 = (num / den).log2 := by
        unfold quotientExponent at hpositive ⊢
        omega
      have hlow : 2 ^ (quotientExponent num den + 52) ≤ num / den := by
        rw [hexponent]
        refine Nat.log2_self_le fun hzero => ?_
        rw [hzero, Nat.log2_zero] at hexponent
        omega
      rw [Nat.le_div_iff_mul_le hden, pow_add] at hlow
      calc den * 2 ^ quotientExponent num den * 2 ^ 52 =
          2 ^ quotientExponent num den * 2 ^ 52 * den := by ring
        _ ≤ num := hlow

variable (num) in
/-- The significand of the nearest rank fits its binade. -/
theorem nearestQuotient_fits (hden : 0 < den) :
    (binadeSize ≤ nearestQuotient num (den * 2 ^ quotientExponent num den) ∨
        quotientExponent num den = 0) ∧
      nearestQuotient num (den * 2 ^ quotientExponent num den) ≤ 2 * binadeSize := by
  obtain ⟨hbelow, hlow⟩ := quotientExponent_spec num hden
  have hstep : 0 < den * 2 ^ quotientExponent num den :=
    Nat.mul_pos hden (Nat.two_pow_pos _)
  rw [binadeSize_eq]
  refine ⟨?_, nearestQuotient_le hbelow⟩
  rcases hlow with hzero | hlow
  · exact .inr hzero
  · exact .inl (le_nearestQuotient hstep hlow)

/-- The magnitude of the nearest rank. -/
theorem rankUnits_nearestRank (hden : 0 < den) :
    rankUnits (nearestRank num den) =
      nearestQuotient num (den * 2 ^ quotientExponent num den) * 2 ^ quotientExponent num den := by
  obtain ⟨hlow, hhigh⟩ := nearestQuotient_fits num hden
  exact rankUnits_of_exponent hlow hhigh

variable (num) in
/-- The nearest magnitude is off by half a step at most. -/
theorem rankUnits_nearestRank_bounds (hden : 0 < den) :
    2 * (den * rankUnits (nearestRank num den)) ≤ 2 * num + den * 2 ^ quotientExponent num den ∧
      2 * num ≤
        2 * (den * rankUnits (nearestRank num den)) + den * 2 ^ quotientExponent num den := by
  have hbounds := nearestQuotient_bounds num
    (Nat.mul_pos hden (Nat.two_pow_pos (quotientExponent num den)))
  have hunits : den * rankUnits (nearestRank num den) = den * 2 ^ quotientExponent num den *
      nearestQuotient num (den * 2 ^ quotientExponent num den) := by
    rw [rankUnits_nearestRank hden]
    ring
  rw [hunits]
  exact hbounds

/-- From the first full binade on, the nearest magnitude is off by one part in `2 ^ 53` at most. -/
theorem rankUnits_nearestRank_relative (hden : 0 < den) (hfull : 2 ^ 52 * den ≤ num) :
    2 ^ 53 * (den * rankUnits (nearestRank num den)) ≤ (2 ^ 53 + 1) * num ∧
      (2 ^ 53 - 1) * num ≤ 2 ^ 53 * (den * rankUnits (nearestRank num den)) := by
  obtain ⟨habove, hbelow⟩ := rankUnits_nearestRank_bounds num hden
  have hstep : 2 ^ 52 * (den * 2 ^ quotientExponent num den) ≤ num := by
    rcases (quotientExponent_spec num hden).2 with hzero | hlow
    · simpa [hzero] using hfull
    · rwa [Nat.mul_comm]
  omega

/-- Quotients below the end of the last binade but one have finite nearest magnitudes. -/
theorem nearestRank_lt_infinityRank {bits : Nat} (hden : 0 < den) (hbits : bits ≤ 2097)
    (hsmall : num < den * 2 ^ bits) : nearestRank num den < infinityRank := by
  have hexponent : quotientExponent num den ≤ 2044 := by
    rcases Nat.eq_zero_or_pos (num / den) with hzero | hpositive
    · simp [quotientExponent, hzero]
    · have hlog := (Nat.log2_lt hpositive.ne').2 (Nat.div_lt_of_lt_mul hsmall)
      unfold quotientExponent
      omega
  have hhigh := (nearestQuotient_fits num hden).2
  calc nearestRank num den = quotientExponent num den * binadeSize +
        nearestQuotient num (den * 2 ^ quotientExponent num den) := rfl
    _ ≤ 2044 * binadeSize + 2 * binadeSize :=
        Nat.add_le_add (Nat.mul_le_mul_right _ hexponent) hhigh
    _ < infinityRank := by decide

/-- A whole number of smallest subnormals below `2 ^ 53` steps of its binade is not rounded. -/
theorem rankUnits_nearestRank_exact {significand exponent : Nat} (hfits : significand < 2 ^ 53) :
    rankUnits (nearestRank (significand * 2 ^ exponent) 1) = significand * 2 ^ exponent := by
  have hlog : quotientExponent (significand * 2 ^ exponent) 1 ≤ exponent := by
    unfold quotientExponent
    rw [Nat.div_one]
    rcases Nat.eq_zero_or_pos significand with rfl | hpositive
    · simp
    · have hbound : significand * 2 ^ exponent < 2 ^ (exponent + 53) := by
        rw [pow_add, Nat.mul_comm]
        exact Nat.mul_lt_mul_of_pos_left hfits (Nat.two_pow_pos _)
      have hsmall := (Nat.log2_lt (Nat.mul_pos hpositive (Nat.two_pow_pos exponent)).ne').2 hbound
      omega
  rw [rankUnits_nearestRank Nat.one_pos]
  generalize quotientExponent (significand * 2 ^ exponent) 1 = lower at hlog ⊢
  obtain ⟨rest, rfl⟩ := Nat.exists_eq_add_of_le hlog
  have hsplit : significand * 2 ^ (lower + rest) = 1 * 2 ^ lower * (significand * 2 ^ rest) := by
    rw [pow_add]
    ring
  rw [hsplit, nearestQuotient_mul (by rw [Nat.one_mul]; exact Nat.two_pow_pos _)]
  ring

end Quotient

/-! ## Numbers and their values -/

namespace Binary64

/-- The exact value of a finite number. -/
def toRat : Binary64 → ℚ
  | .nan => 0
  | .number negative rank => (signed negative (rankUnits rank) : ℚ) / (unitsPerOne : ℚ)

/-- A finite number that is not negative, with its magnitude in smallest subnormals. -/
def HasUnits (x : Binary64) (units : Nat) : Prop :=
  ∃ rank, x = .number false rank ∧ rank.val < infinityRank ∧ rankUnits rank = units

/-- A NaN is not below any number. -/
theorem nan_le (x : Binary64) : le .nan x = false := rfl

/-- Zero stands in the middle of the order. -/
theorem order?_zero : order? 0 = some 0 := by decide +kernel

/-- Smallest subnormals in one are a power of two, of which no more than the bounds matters. -/
theorem unitsPerOne_eq : ∃ bits, 128 ≤ bits ∧ bits ≤ 1074 ∧ unitsPerOne = 2 ^ bits :=
  ⟨1074, by decide, le_rfl, Nat.pow_eq⟩

theorem unitsPerOne_pos : 0 < unitsPerOne := by
  obtain ⟨bits, -, -, hbits⟩ := unitsPerOne_eq
  rw [hbits]
  exact Nat.two_pow_pos _

theorem le_unitsPerOne : 2 ^ 128 ≤ unitsPerOne := by
  obtain ⟨bits, hlow, -, hbits⟩ := unitsPerOne_eq
  rw [hbits]
  exact Nat.pow_le_pow_right (by decide) hlow

section Values

variable {x y : Binary64} {a b num den : Nat}

/-- A quotient whose nearest rank is finite is rounded to its magnitude. -/
theorem hasUnits_nearest (hfinite : nearestRank num den < infinityRank) :
    (nearest false num den).HasUnits (rankUnits (nearestRank num den)) :=
  ⟨_, rfl, by simpa [Nat.min_eq_left hfinite.le] using hfinite,
    by simp [Nat.min_eq_left hfinite.le]⟩

/-- A quotient of moderate size is rounded to a finite number. -/
theorem hasUnits_nearest_of_lt (hden : 0 < den)
    (hsmall : num < den * (2 ^ 128 * unitsPerOne)) :
    (nearest false num den).HasUnits (rankUnits (nearestRank num den)) := by
  obtain ⟨bits, -, hhigh, hbits⟩ := unitsPerOne_eq
  have hbound : 128 + bits ≤ 2097 := by omega
  rw [hbits, ← pow_add] at hsmall
  exact hasUnits_nearest (nearestRank_lt_infinityRank hden hbound hsmall)

/-- A quotient is rounded to the nearest magnitude, or to infinity. -/
theorem hasUnits_or_infinity (num den : Nat) :
    (nearest false num den).HasUnits (rankUnits (nearestRank num den)) ∨
      nearest false num den = infinity false := by
  rcases Nat.lt_or_ge (nearestRank num den) infinityRank with hfinite | hinfinite
  · exact .inl (hasUnits_nearest hfinite)
  · refine .inr ?_
    simp [nearest, infinity, ofRank, Nat.min_eq_right hinfinite]

/-- Infinity times a positive number is infinity. -/
theorem infinity_mul {rank : Fin (infinityRank + 1)} (hpositive : rank.val ≠ 0) :
    infinity false * .number false rank = infinity false := by
  have hinfinity : infinityRank ≠ 0 := by decide
  change mul _ _ = _
  simp [mul, infinity, ofRank, hpositive, hinfinity]

/-- Naturals below `2 ^ 53` are numbers. -/
theorem hasUnits_ofNat {n : Nat} (hsmall : n < 2 ^ 53) :
    (Binary64.ofNat n).HasUnits (n * unitsPerOne) := by
  have hexact : rankUnits (nearestRank (n * unitsPerOne) 1) = n * unitsPerOne := by
    obtain ⟨bits, -, -, hbits⟩ := unitsPerOne_eq
    rw [hbits]
    exact rankUnits_nearestRank_exact hsmall
  rw [← hexact]
  refine hasUnits_nearest_of_lt Nat.one_pos ?_
  rw [Nat.one_mul]
  exact Nat.mul_lt_mul_of_pos_right (hsmall.trans (by decide)) unitsPerOne_pos

/-- A positive natural is rounded to infinity, or it loses one part in `2 ^ 53` at most. -/
theorem ofNat_eq_infinity_or {n : Nat} (hpositive : n ≠ 0) :
    Binary64.ofNat n = infinity false ∨ ∃ units, (Binary64.ofNat n).HasUnits units ∧
      (2 ^ 53 - 1) * (n * unitsPerOne) ≤ 2 ^ 53 * units := by
  have hlarge := le_unitsPerOne
  have hleast : unitsPerOne ≤ n * unitsPerOne :=
    Nat.le_mul_of_pos_left _ (Nat.pos_of_ne_zero hpositive)
  have hfull : 2 ^ 52 * 1 ≤ n * unitsPerOne := by omega
  obtain ⟨-, hkept⟩ := rankUnits_nearestRank_relative Nat.one_pos hfull
  rw [Nat.one_mul] at hkept
  rcases hasUnits_or_infinity (n * unitsPerOne) 1 with hunits | hinfinite
  · exact .inr ⟨_, hunits, hkept⟩
  · exact .inl hinfinite

/-- Zero has no magnitude. -/
theorem hasUnits_zero : (0 : Binary64).HasUnits 0 := by
  have hzero := hasUnits_ofNat (n := 0) (by decide)
  rwa [Nat.zero_mul] at hzero

namespace HasUnits

variable (hx : x.HasUnits a) (hy : y.HasUnits b)

include hx in
/-- The exact value of a number. -/
theorem toRat_eq : x.toRat = (a : ℚ) / (unitsPerOne : ℚ) := by
  obtain ⟨rank, rfl, -, rfl⟩ := hx
  rw [toRat, signed, if_neg Bool.false_ne_true, Int.cast_natCast]

include hx in
/-- A number with a magnitude is below infinity. -/
theorem lt_infinity : x.lt (infinity false) = true := by
  obtain ⟨rank, rfl, hfinite, -⟩ := hx
  simpa [lt, order?, infinity, ofRank] using hfinite

include hx in
/-- A number with a magnitude is finite. -/
theorem isFinite : x.isFinite = true := by
  obtain ⟨rank, rfl, hfinite, -⟩ := hx
  exact decide_eq_true hfinite

include hx hy

/-- Numbers are compared by their magnitudes. -/
theorem lt_iff : x.lt y = true ↔ a < b := by
  obtain ⟨rank, rfl, -, rfl⟩ := hx
  obtain ⟨other, rfl, -, rfl⟩ := hy
  rw [rankUnits_strictMono.lt_iff_lt]
  simp [lt, order?]

/-- Numbers are compared by their magnitudes. -/
theorem le_iff : x.le y = true ↔ a ≤ b := by
  obtain ⟨rank, rfl, -, rfl⟩ := hx
  obtain ⟨other, rfl, -, rfl⟩ := hy
  rw [rankUnits_strictMono.le_iff_le]
  simp [le, order?]

/-- Multiples of the exact values are compared as those of the magnitudes. -/
theorem mul_toRat_le_iff (c d : Nat) :
    (c : ℚ) * x.toRat ≤ (d : ℚ) * y.toRat ↔ c * a ≤ d * b := by
  have hpositive : (0 : ℚ) < unitsPerOne := Nat.cast_pos.2 unitsPerOne_pos
  rw [hx.toRat_eq, hy.toRat_eq, mul_div_assoc', mul_div_assoc',
    div_le_div_iff_of_pos_right hpositive]
  exact_mod_cast Iff.rfl

/-- The larger of two numbers has the larger magnitude. -/
theorem max : (x.max y).HasUnits (Max.max a b) := by
  have hmax : x.max y = if x.lt y then y else x := by
    obtain ⟨rank, rfl, -, -⟩ := hx
    rfl
  rw [hmax]
  split_ifs with hless
  · rw [lt_iff hx hy] at hless
    rwa [Nat.max_eq_right hless.le]
  · rw [lt_iff hx hy] at hless
    rwa [Nat.max_eq_left (Nat.le_of_not_lt hless)]

/-- A product is the rounded product of the magnitudes. -/
theorem mul_eq : x * y = nearest false (a * b) unitsPerOne := by
  obtain ⟨rank, rfl, hfinite, rfl⟩ := hx
  obtain ⟨other, rfl, hother, rfl⟩ := hy
  change mul _ _ = _
  simp [mul, hfinite.ne, hother.ne]

omit hy in
/-- A number is larger than no number. -/
theorem max_nan : x.max .nan = x := by
  obtain ⟨rank, rfl, -, -⟩ := hx
  rfl

omit hy in
/-- A positive number times infinity is infinity. -/
theorem mul_infinity (hpositive : 0 < a) {rank : Fin (infinityRank + 1)}
    (hinfinite : rank.val = infinityRank) : x * .number false rank = infinity false := by
  obtain ⟨own, rfl, -, rfl⟩ := hx
  have hinfinity : infinityRank ≠ 0 := by decide
  have hnonzero : own.val ≠ 0 := fun hzero => hpositive.ne' (by rw [hzero, rankUnits_zero])
  change mul _ _ = _
  simp [mul, infinity, hinfinite, hnonzero, hinfinity]

/-- A quotient is the rounded quotient of the magnitudes. -/
theorem div_eq (hpositive : b ≠ 0) : x / y = nearest false (a * unitsPerOne) b := by
  obtain ⟨rank, rfl, hfinite, rfl⟩ := hx
  obtain ⟨other, rfl, hother, rfl⟩ := hy
  have hnonzero : other.val ≠ 0 := fun hzero => hpositive (by rw [hzero, rankUnits_zero])
  change div _ _ = _
  simp [div, hfinite.ne, hother.ne, hnonzero]

end HasUnits

/-- The sum of finite numbers is rounded from the exact sum of their signed magnitudes. -/
theorem add_of_finite {s t : Bool} {rank other : Fin (infinityRank + 1)}
    (hrank : rank.val ≠ infinityRank) (hother : other.val ≠ infinityRank) :
    add (.number s rank) (.number t other) =
      ofUnits (s && t) (signed s (rankUnits rank) + signed t (rankUnits other)) := by
  simp [add, hrank, hother]

/-- A positive exact result is rounded as a quotient. -/
theorem ofUnits_of_pos {units : Nat} (hpositive : 0 < units) (zeroNegative : Bool) :
    ofUnits zeroNegative (units : Int) = nearest false units 1 := by
  have hnonzero : (units : Int) ≠ 0 := by omega
  have hsign : decide ((units : Int) < 0) = false := decide_eq_false (by omega)
  rw [ofUnits, if_neg hnonzero, hsign, Int.natAbs_natCast]

/-- The difference to a smaller magnitude is rounded; a zero may have either sign. -/
theorem HasUnits.sub_eq (hx : x.HasUnits a) {negative : Bool} {rank : Fin (infinityRank + 1)}
    (hzero : negative = true → rank.val = 0) (hlt : rankUnits rank < a) :
    x - .number negative rank = nearest false (a - rankUnits rank) 1 := by
  obtain ⟨greater, rfl, hfinite, rfl⟩ := hx
  have hother : rank.val ≠ infinityRank :=
    ((rankUnits_strictMono.lt_iff_lt.1 hlt).trans hfinite).ne
  have hdifference : signed false (rankUnits greater) + signed (!negative) (rankUnits rank) =
      ((rankUnits greater - rankUnits rank : Nat) : Int) := by
    cases negative with
    | false =>
      simp only [signed, Bool.not_false, if_true, Bool.false_eq_true, if_false]
      omega
    | true =>
      have hnothing : rankUnits rank = 0 := by rw [hzero rfl, rankUnits_zero]
      simp [signed, hnothing]
  calc .number false greater - .number negative rank =
      add (.number false greater) (.number (!negative) rank) := rfl
    _ = nearest false (rankUnits greater - rankUnits rank) 1 := by
      rw [add_of_finite hfinite.ne hother, hdifference]
      exact ofUnits_of_pos (Nat.sub_pos_of_lt hlt) _

/-- The natural below a number. -/
theorem HasUnits.floorUpTo_eq (hx : x.HasUnits a) (bound : Nat) :
    x.floorUpTo bound = min bound (a / unitsPerOne) := by
  obtain ⟨rank, rfl, -, rfl⟩ := hx
  rfl

end Values

end Binary64

end Steward
