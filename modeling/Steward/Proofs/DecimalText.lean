import Steward.Decimal.Reading
import Steward.Decimal.Shortest
import Steward.Proofs.Rounding
import Mathlib.Data.List.TakeWhile

/-!
# Decimal text of numbers

A finite number reads back from its own text bit for bit: the shortest decimal rounds to the rank it
was made for, positional notation keeps the decimal number, and reading makes the same decimal
number of it up to a power of ten, which rounding does not see.
-/

namespace Steward

/-! ## Ranks of equal quotients -/

section Quotients

variable {num den top bottom factor : Nat}

/-- A common factor does not change the nearest integer. -/
theorem nearestQuotient_mul_right (hfactor : 0 < factor) :
    nearestQuotient (num * factor) (den * factor) = nearestQuotient num den := by
  have hquotient : num * factor / (den * factor) = num / den :=
    Nat.mul_div_mul_right num den hfactor
  have hrest : 2 * (num * factor % (den * factor)) = 2 * (num % den) * factor := by
    rw [Nat.mul_mod_mul_right, Nat.mul_assoc]
  simp only [nearestQuotient, hquotient, hrest, Nat.mul_lt_mul_right hfactor]

/-- A common factor does not change the nearest rank. -/
theorem nearestRank_mul_right (hfactor : 0 < factor) :
    nearestRank (num * factor) (den * factor) = nearestRank num den := by
  have hquotient : num * factor / (den * factor) = num / den :=
    Nat.mul_div_mul_right num den hfactor
  have hstep (power : Nat) : den * factor * power = den * power * factor := by ring
  simp only [nearestRank, hquotient, hstep, nearestQuotient_mul_right hfactor]

/-- Equal quotients have the same nearest rank. -/
theorem nearestRank_congr (hden : 0 < den) (hbottom : 0 < bottom)
    (hequal : num * bottom = top * den) : nearestRank num den = nearestRank top bottom := by
  calc nearestRank num den = nearestRank (num * bottom) (den * bottom) :=
        (nearestRank_mul_right hbottom).symm
    _ = nearestRank (top * den) (bottom * den) := by rw [hequal, Nat.mul_comm den]
    _ = nearestRank top bottom := nearestRank_mul_right hden

/-- The magnitude of a rank is not rounded. -/
theorem nearestRank_rankUnits (rank : Nat) : nearestRank (rankUnits rank) 1 = rank := by
  obtain ⟨-, hhigh, -⟩ := rank_eq rank
  have hfits : rankSignificand rank < 2 ^ 53 := by
    rw [binadeSize_eq] at hhigh
    omega
  exact rankUnits_strictMono.injective (rankUnits_nearestRank_exact hfits)

/-- A quotient below half a smallest subnormal is rounded to zero. -/
theorem nearestRank_eq_zero (hsmall : 2 * num < den) : nearestRank num den = 0 := by
  have hquotient : num / den = 0 := Nat.div_eq_of_lt (by omega)
  have hrest : num % den = num := Nat.mod_eq_of_lt (by omega)
  simp [nearestRank, nearestQuotient, hquotient, hrest, hsmall]

/-- A quotient beyond the last binade is rounded to infinity. -/
theorem infinityRank_le_nearestRank {bits : Nat} (hden : 0 < den) (hbits : 2099 ≤ bits)
    (hlarge : den * 2 ^ bits ≤ num) : infinityRank ≤ nearestRank num den := by
  have hquotient : 2 ^ bits ≤ num / den := (Nat.le_div_iff_mul_le hden).2 (by rwa [Nat.mul_comm])
  have hpositive : 0 < num / den := (Nat.two_pow_pos bits).trans_le hquotient
  have hlog : bits ≤ (num / den).log2 := (Nat.le_log2 hpositive.ne').2 hquotient
  have hexponent : 2047 ≤ (num / den).log2 - 52 := by omega
  exact (Nat.mul_le_mul_right binadeSize hexponent).trans (Nat.le_add_right _ _)

end Quotients

namespace Decimal

/-! ## Reading a decimal number -/

variable {d e : Decimal}

/-- Equal decimal numbers have the same rank. -/
theorem rank_congr
    (hequal : d.digits * 10 ^ d.exponent.toNat * 10 ^ (-e.exponent).toNat =
      e.digits * 10 ^ e.exponent.toNat * 10 ^ (-d.exponent).toNat) : d.rank = e.rank := by
  unfold rank
  simp only [Nat.pow_eq]
  refine nearestRank_congr (Nat.pow_pos (by decide)) (Nat.pow_pos (by decide)) ?_
  calc d.digits * 10 ^ d.exponent.toNat * unitsPerOne * 10 ^ (-e.exponent).toNat =
        d.digits * 10 ^ d.exponent.toNat * 10 ^ (-e.exponent).toNat * unitsPerOne := by ring
    _ = e.digits * 10 ^ e.exponent.toNat * 10 ^ (-d.exponent).toNat * unitsPerOne := by rw [hequal]
    _ = e.digits * 10 ^ e.exponent.toNat * unitsPerOne * 10 ^ (-d.exponent).toNat := by ring

/-- The smallest subnormals in one, with the power kept apart from its exponent. -/
theorem unitsPerOne_pow : ∃ bits, bits = 1074 ∧ unitsPerOne = 2 ^ bits := ⟨_, rfl, Nat.pow_eq⟩

/-- Powers of ten outgrow powers of two. -/
theorem two_pow_le_ten_pow (n : Nat) : 2 ^ (33 * n) ≤ 10 ^ (10 * n) := by
  rw [pow_mul, pow_mul]
  exact Nat.pow_le_pow_left (by decide) n

/-- The number of digits bounds a natural from above. -/
theorem lt_ten_pow_length (n : Nat) : n < 10 ^ (Nat.toDigits 10 n).length :=
  (Nat.length_toDigits_le_iff (by decide) Nat.length_toDigits_pos).1 le_rfl

/-- The number of digits bounds a positive natural from below. -/
theorem ten_pow_length_le {n : Nat} (hpositive : n ≠ 0) :
    10 ^ ((Nat.toDigits 10 n).length - 1) ≤ n := by
  rcases Nat.eq_zero_or_pos ((Nat.toDigits 10 n).length - 1) with hone | hmore
  · rw [hone]
    omega
  · by_contra hlt
    have hfewer := (Nat.length_toDigits_le_iff (by decide) hmore).2 (Nat.lt_of_not_le hlt)
    omega

/-- A number with a place far before the point is rounded to infinity. -/
theorem infinityRank_le_rank (hdigits : d.digits ≠ 0) (hplace : 320 < d.leadingPlace) :
    infinityRank ≤ d.rank := by
  have hlow := ten_pow_length_le hdigits
  unfold leadingPlace at hplace
  generalize (Nat.toDigits 10 d.digits).length = length at hlow hplace
  have hpower : 10 ^ (-d.exponent).toNat * 10 ^ (10 * 32) ≤
      10 ^ (length - 1) * 10 ^ d.exponent.toNat := by
    rw [← pow_add, ← pow_add]
    exact Nat.pow_le_pow_right (by decide) (by omega)
  obtain ⟨bits, hbits, hunits⟩ := unitsPerOne_pow
  have hfar : 2099 ≤ 33 * 32 + bits := by omega
  unfold rank
  simp only [Nat.pow_eq]
  refine infinityRank_le_nearestRank (Nat.pow_pos (by decide)) hfar ?_
  rw [hunits]
  calc 10 ^ (-d.exponent).toNat * 2 ^ (33 * 32 + bits) =
        10 ^ (-d.exponent).toNat * 2 ^ (33 * 32) * 2 ^ bits := by rw [pow_add, Nat.mul_assoc]
    _ ≤ 10 ^ (-d.exponent).toNat * 10 ^ (10 * 32) * 2 ^ bits :=
        Nat.mul_le_mul_right _ (Nat.mul_le_mul_left _ (two_pow_le_ten_pow 32))
    _ ≤ 10 ^ (length - 1) * 10 ^ d.exponent.toNat * 2 ^ bits := Nat.mul_le_mul_right _ hpower
    _ ≤ d.digits * 10 ^ d.exponent.toNat * 2 ^ bits :=
        Nat.mul_le_mul_right _ (Nat.mul_le_mul_right _ hlow)

/-- A number without a place near the point is rounded to zero. -/
theorem rank_eq_zero (hplace : d.leadingPlace < -340) : d.rank = 0 := by
  have hhigh := lt_ten_pow_length d.digits
  unfold leadingPlace at hplace
  generalize (Nat.toDigits 10 d.digits).length = length at hhigh hplace
  have hwhole : d.exponent.toNat = 0 := by omega
  obtain ⟨more, hmore⟩ : ∃ more, (-d.exponent).toNat = length + 10 * 34 + more :=
    ⟨(-d.exponent).toNat - (length + 10 * 34), by omega⟩
  obtain ⟨bits, hbits, hunits⟩ := unitsPerOne_pow
  unfold rank
  simp only [Nat.pow_eq]
  refine nearestRank_eq_zero ?_
  rw [hwhole, hmore, pow_zero, Nat.mul_one, hunits]
  have hpower : 2 * 2 ^ bits ≤ 10 ^ (10 * 34) := by
    have hdouble : 2 ^ (bits + 1) ≤ 2 ^ (33 * 34) := Nat.pow_le_pow_right (by decide) (by omega)
    rw [pow_succ'] at hdouble
    exact hdouble.trans (two_pow_le_ten_pow 34)
  calc 2 * (d.digits * 2 ^ bits) = d.digits * (2 * 2 ^ bits) := by ring
    _ < 10 ^ length * (2 * 2 ^ bits) :=
        Nat.mul_lt_mul_of_pos_right hhigh (Nat.mul_pos (by decide) (Nat.two_pow_pos _))
    _ ≤ 10 ^ length * 10 ^ (10 * 34) := Nat.mul_le_mul_left _ hpower
    _ ≤ 10 ^ (length + 10 * 34 + more) := by
        rw [← pow_add]
        exact Nat.pow_le_pow_right (by decide) (Nat.le_add_right _ _)

/-- The shortcuts for numbers far outside the range do not change what is read. -/
theorem toBinary64_eq (negative : Bool) (d : Decimal) :
    d.toBinary64 negative = .ofRank negative d.rank := by
  unfold toBinary64
  split_ifs with hzero hlarge hsmall
  · have hrank : d.rank = 0 := nearestRank_eq_zero (by simp [hzero])
    rw [hrank]
  · have hinfinite := infinityRank_le_rank hzero hlarge
    simp [Binary64.infinity, Binary64.ofRank, Nat.min_eq_right hinfinite]
  · rw [rank_eq_zero hsmall]
  · rfl

/-! ## The shortest decimal number -/

/-- A neighbour on a decimal grid is only taken if it is rounded back. -/
theorem rank_neighbour? {rank : Nat} {exponent : Int} (hfound : neighbour? rank exponent = some d) :
    d.rank = rank := by
  unfold neighbour? at hfound
  dsimp only at hfound
  split_ifs at hfound with hlower hupper
  · cases hfound
    exact hlower.1
  · cases hfound
    exact hupper

/-- A number of smallest subnormals with all its decimal digits is rounded as it is. -/
theorem rank_allDigits (units : Nat) {bits : Nat} (hunits : unitsPerOne = 2 ^ bits) :
    Decimal.rank ⟨units * 5 ^ bits, -(bits : Int)⟩ = nearestRank units 1 := by
  have hten : (10 : Nat) ^ bits = 5 ^ bits * 2 ^ bits := by rw [← Nat.mul_pow]
  unfold Decimal.rank
  simp only [Nat.pow_eq, hunits, neg_neg, Int.toNat_natCast, Int.toNat_neg_natCast, pow_zero,
    Nat.mul_one]
  refine nearestRank_congr (Nat.pow_pos (by decide)) Nat.one_pos ?_
  rw [hten, Nat.mul_one, Nat.mul_assoc]

/-- All decimal digits of a magnitude are rounded back. -/
theorem rank_exactDecimal (rank : Nat) : (exactDecimal rank).rank = rank := by
  obtain ⟨bits, hbits, hunits⟩ := unitsPerOne_pow
  have hexact : exactDecimal rank = ⟨rankUnits rank * 5 ^ bits, -(bits : Int)⟩ := by
    rw [exactDecimal, hbits]
    rfl
  rw [hexact, rank_allDigits _ hunits, nearestRank_rankUnits]

/-- The shortest decimal number of a magnitude is rounded back. -/
theorem rank_shortestDecimal (rank : Nat) : (shortestDecimal rank).rank = rank := by
  unfold shortestDecimal
  split_ifs with hzero
  · rw [hzero]
    exact nearestRank_eq_zero (by simp)
  · cases hsearch : (List.range 18).findSome? fun (digits : Nat) =>
        neighbour? rank (magnitudePlace rank - digits) with
    | none => exact rank_exactDecimal rank
    | some found =>
      obtain ⟨digits, -, hfound⟩ := List.exists_of_findSome?_eq_some hsearch
      exact rank_neighbour? hfound

/-! ## Positional notation -/

/-- What follows the digits of a natural does not change the first one. -/
theorem head?_toDigits_append (n : Nat) (rest : List Char) :
    (Nat.toDigits 10 n ++ rest).head? = (Nat.toDigits 10 n).head? := by
  cases hdigits : Nat.toDigits 10 n with
  | nil => exact absurd hdigits Nat.toDigits_ne_nil
  | cons first others => rfl

/-- A positive natural is not written with a zero in front. -/
theorem head?_toDigits {n : Nat} (hpositive : n ≠ 0) : (Nat.toDigits 10 n).head? ≠ some '0' := by
  induction n using Nat.strongRecOn with
  | ind n ih =>
    rw [Nat.toDigits_eq_if (by decide)]
    split_ifs with hsmall
    · have hdigit : ∀ m < 10, m ≠ 0 → Nat.digitChar m ≠ '0' := by decide
      simpa using hdigit n hsmall hpositive
    · have hless := ih (n / 10) (by omega) (by omega)
      rwa [head?_toDigits_append]

/-- Zeros in front do not change the value of digits. -/
theorem digitsValue_zeros (count : Nat) (digits : List Char) :
    digitsValue (List.replicate count '0' ++ digits) = digitsValue digits := by
  rw [digitsValue, Nat.ofDigitChars_append, Nat.ofDigitChars_replicate_zero, Nat.mul_zero,
    digitsValue]

/-- Digits with zeros behind have the value times a power of ten. -/
theorem digitsValue_toDigits_zeros (n count : Nat) :
    digitsValue (Nat.toDigits 10 n ++ List.replicate count '0') = n * 10 ^ count := by
  rw [digitsValue, Nat.ofDigitChars_append, Nat.ofDigitChars_ten_toDigits,
    Nat.ofDigitChars_replicate_zero, Nat.mul_comm]

/-- Zeros are digits. -/
theorem isDigit_zeros (count : Nat) : ∀ c ∈ List.replicate count '0', c.isDigit = true := by
  intro c hmem
  rw [List.eq_of_mem_replicate hmem]
  rfl

/-- A natural is written in digits, and so is its product with a power of ten. -/
theorem isDigit_toDigits_zeros (n count : Nat) :
    ∀ c ∈ Nat.toDigits 10 n ++ List.replicate count '0', c.isDigit = true := by
  intro c hmem
  rcases List.mem_append.1 hmem with hmem | hmem
  · exact Nat.isDigit_of_mem_toDigits (by decide) (by decide) hmem
  · exact isDigit_zeros count c hmem

/-- Only zero itself is written with a zero in front. -/
theorem toDigits_zeros_leading {n count : Nat} (hplain : n ≠ 0 ∨ count = 0)
    (hzero : (Nat.toDigits 10 n ++ List.replicate count '0').head? = some '0') :
    Nat.toDigits 10 n ++ List.replicate count '0' = ['0'] := by
  rw [head?_toDigits_append] at hzero
  have hnone : n = 0 := by
    by_contra hpositive
    exact head?_toDigits hpositive hzero
  simp [hnone, hplain.resolve_left (not_not_intro hnone)]

/-- What stands around the point in positional notation: digits, at least one before the point, as
many after it as the exponent says, and no needless zero in front. -/
theorem split_spec (d : Decimal) :
    d.split.1 ≠ [] ∧ d.split.2.length = (-d.exponent).toNat ∧
      (∀ c ∈ d.split.1 ++ d.split.2, c.isDigit = true) ∧
      digitsValue (d.split.1 ++ d.split.2) = d.digits * 10 ^ d.exponent.toNat ∧
      (d.digits ≠ 0 ∨ d.exponent.toNat = 0 → d.split.1.head? = some '0' → d.split.1 = ['0']) := by
  have hwritten : 0 < (Nat.toDigits 10 d.digits ++ List.replicate d.exponent.toNat '0').length :=
    List.length_pos_iff.2 (List.append_ne_nil_of_left_ne_nil Nat.toDigits_ne_nil _)
  have hvalue := digitsValue_toDigits_zeros d.digits d.exponent.toNat
  have hdigits := isDigit_toDigits_zeros d.digits d.exponent.toNat
  have hleading := @toDigits_zeros_leading d.digits d.exponent.toNat
  unfold split
  dsimp only
  generalize Nat.toDigits 10 d.digits ++ List.replicate d.exponent.toNat '0' = written at *
  generalize (-d.exponent).toNat = fraction
  rw [List.splitAt_eq]
  have hpadded : (List.replicate (fraction + 1 - written.length) '0' ++ written).length =
      max (fraction + 1) written.length := by
    rw [List.length_append, List.length_replicate]
    omega
  refine ⟨?_, ?_, ?_, ?_, ?_⟩
  · rw [← List.length_pos_iff, List.length_take, hpadded]
    omega
  · rw [List.length_drop, hpadded]
    omega
  · rw [List.take_append_drop]
    intro c hmem
    exact (List.mem_append.1 hmem).elim (isDigit_zeros _ c) (hdigits c)
  · rw [List.take_append_drop, digitsValue_zeros, hvalue]
  · intro hplain hzero
    rcases Nat.lt_or_ge fraction written.length with hlong | hshort
    · -- Digits stand before the point, the first of them in front.
      have hnone : fraction + 1 - written.length = 0 := by omega
      rw [hnone, List.replicate_zero, List.nil_append] at hzero ⊢
      rw [List.head?_take, if_neg (by omega)] at hzero
      have hone := hleading hplain hzero
      rw [hone] at hlong ⊢
      rw [Nat.lt_one_iff.1 hlong]
      rfl
    · -- A zero stands before the point, and maybe more after it.
      rw [hpadded, max_eq_left (by omega), Nat.add_sub_cancel_left]
      obtain ⟨more, hmore⟩ : ∃ more, fraction + 1 - written.length = more + 1 :=
        ⟨fraction - written.length, by omega⟩
      rw [hmore, List.replicate_succ]
      rfl

end Decimal

/-! ## Reading positional notation -/

/-- A natural in positional notation as settings files have it: digits, at least one, and no
needless zero in front. -/
structure IsWhole (whole : List Char) : Prop where
  nonempty : whole ≠ []
  digits : ∀ c ∈ whole, c.isDigit = true
  leading : whole.head? = some '0' → whole = ['0']

/-- A number in positional notation as settings files have it: digits on both sides of the point,
and no needless zero in front. -/
structure IsNumeral (whole fraction : List Char) : Prop extends IsWhole whole where
  fraction_nonempty : fraction ≠ []
  fraction_digits : ∀ c ∈ fraction, c.isDigit = true

/-- A natural is written without a needless zero in front. -/
theorem isWhole_toDigits (n : Nat) : IsWhole (Nat.toDigits 10 n) := by
  refine ⟨Nat.toDigits_ne_nil,
    fun c hmem => Nat.isDigit_of_mem_toDigits (by decide) (by decide) hmem, fun hzero => ?_⟩
  by_cases hpositive : n = 0
  · rw [hpositive]
    rfl
  · exact absurd hzero (Decimal.head?_toDigits hpositive)

/-- The decimal number of digits before and after the point. -/
def decimalOf (whole fraction : List Char) : Decimal :=
  ⟨digitsValue (whole ++ fraction), -(fraction.length : Int)⟩

/-- The sign in front of a number. -/
def signOf (negative : Bool) : List Char := if negative then ['-'] else []

/-- Without a sign in front, the number is positive. -/
theorem splitSign_digit {c : Char} (hdigit : c.isDigit = true) (rest : List Char) :
    splitSign (c :: rest) = (false, c :: rest) := by
  unfold splitSign
  split
  · next heq =>
    cases heq
    cases hdigit
  · next heq =>
    cases heq
    cases hdigit
  · rfl

namespace IsNumeral

variable {whole fraction : List Char} (hn : IsNumeral whole fraction)

include hn

/-- A numeral is read as its decimal number. -/
theorem readDecimal?_eq :
    readDecimal? (whole ++ '.' :: fraction) = some (decimalOf whole fraction) := by
  have hpoint : Char.isDigit '.' ≠ true := by decide
  have hmantissa : splitMantissa (whole ++ '.' :: fraction) = (whole, fraction, []) := by
    have htake : (whole ++ '.' :: fraction).takeWhile Char.isDigit = whole := by
      rw [List.takeWhile_append_of_pos hn.digits, List.takeWhile_cons_of_neg hpoint,
        List.append_nil]
    have hdrop : (whole ++ '.' :: fraction).dropWhile Char.isDigit = '.' :: fraction := by
      rw [List.dropWhile_append_of_pos hn.digits, List.dropWhile_cons_of_neg hpoint]
    have hfraction : fraction.takeWhile Char.isDigit = fraction :=
      List.takeWhile_eq_self_iff.2 hn.fraction_digits
    have hend : fraction.dropWhile Char.isDigit = [] :=
      List.dropWhile_eq_nil_iff.2 hn.fraction_digits
    simp only [splitMantissa, htake, hdrop, hfraction, hend]
  simp [readDecimal?, hmantissa, hn.nonempty, decimalOf]

/-- A numeral with a sign is read as the number nearest to it. -/
theorem readBinary64?_eq (negative : Bool) :
    readBinary64? (signOf negative ++ (whole ++ '.' :: fraction)) =
      some (.ofRank negative (decimalOf whole fraction).rank) := by
  have hsign : splitSign (signOf negative ++ (whole ++ '.' :: fraction)) =
      (negative, whole ++ '.' :: fraction) := by
    cases negative with
    | true => rfl
    | false =>
      obtain ⟨first, others, rfl⟩ := List.exists_cons_of_ne_nil hn.nonempty
      exact splitSign_digit (hn.digits first List.mem_cons_self) _
  have hword (word : String) (hplain : '.' ∉ word.toList) :
      String.ofList ((whole ++ '.' :: fraction).map Char.toLower) ≠ word := by
    rintro rfl
    simp at hplain
  simp only [readBinary64?, hsign]
  rw [if_neg (not_or_intro (hword _ (by decide)) (hword _ (by decide))),
    if_neg (hword _ (by decide)), hn.readDecimal?_eq, Option.map_some, Decimal.toBinary64_eq]

end IsNumeral

/-! ## The text of a number -/

/-- The shortest decimal number is zero without an exponent, or it has digits. -/
theorem shortestDecimal_plain (rank : Nat) :
    (shortestDecimal rank).digits ≠ 0 ∨ (shortestDecimal rank).exponent.toNat = 0 := by
  by_cases hzero : rank = 0
  · exact .inr (by simp [shortestDecimal, hzero])
  · refine .inl fun hnone => hzero ?_
    rw [← Decimal.rank_shortestDecimal rank]
    exact nearestRank_eq_zero (by simp [hnone, Nat.pow_eq])

/-- A number is written with digits, a sign, a point and what its style adds. -/
theorem Binary64.mem_chars {style : NumberStyle} {x : Binary64} {c : Char}
    (hmem : c ∈ x.chars style) :
    c.isDigit = true ∨ c = '-' ∨ c = '.' ∨
      c ∈ style.nanWord ++ style.infinityWord ++ style.integralFraction := by
  cases x with
  | nan => simp [show c ∈ style.nanWord from hmem]
  | number negative rank =>
    obtain ⟨-, -, hdigits, -⟩ := (shortestDecimal rank).split_spec
    unfold chars at hmem
    rcases List.mem_append.1 hmem with hsign | hmagnitude
    · have hminus : c = '-' := by
        split_ifs at hsign
        · simpa using hsign
        · cases hsign
      exact .inr (.inl hminus)
    · split_ifs at hmagnitude
      · simp [hmagnitude]
      · rcases hsplit : (shortestDecimal rank).split with ⟨whole, _ | ⟨first, others⟩⟩ <;>
          rw [hsplit] at hmagnitude hdigits <;>
          rcases List.mem_append.1 hmagnitude with hwhole | hrest
        · exact .inl (hdigits c (List.mem_append_left _ hwhole))
        · simp [show c ∈ style.integralFraction from hrest]
        · exact .inl (hdigits c (List.mem_append_left _ hwhole))
        · rcases List.mem_cons.1 hrest with hpoint | hfraction
          · exact .inr (.inr (.inl hpoint))
          · exact .inl (hdigits c (List.mem_append_right _ hfraction))

/-- A finite magnitude is written as a numeral that is rounded back. -/
theorem isNumeral_shortestDecimal (rank : Nat) :
    ∃ whole fraction, IsNumeral whole fraction ∧ (decimalOf whole fraction).rank = rank ∧
      (match (shortestDecimal rank).split with
        | (whole, []) => whole ++ ['.', '0']
        | (whole, fraction) => whole ++ '.' :: fraction) = whole ++ '.' :: fraction := by
  obtain ⟨hwhole, hlength, hdigits, hvalue, hleading⟩ := (shortestDecimal rank).split_spec
  have hback := Decimal.rank_shortestDecimal rank
  have hplain := shortestDecimal_plain rank
  generalize shortestDecimal rank = d at *
  rcases hsplit : d.split with ⟨whole, _ | ⟨first, others⟩⟩
  · rw [hsplit] at hwhole hlength hdigits hvalue hleading
    have hplace : (-d.exponent).toNat = 0 := hlength.symm
    have hzero : digitsValue (whole ++ ['0']) = digitsValue whole * 10 := by
      simp [digitsValue, Nat.ofDigitChars_append, Nat.ofDigitChars_cons, Nat.mul_comm]
    refine ⟨whole, ['0'], ⟨⟨hwhole, by simpa using hdigits, hleading hplain⟩, by simp, by simp⟩, ?_,
      rfl⟩
    rw [← hback]
    refine Decimal.rank_congr ?_
    rw [List.append_nil] at hvalue
    simp [decimalOf, hplace, hzero, hvalue]
  · rw [hsplit] at hwhole hlength hdigits hvalue hleading
    refine ⟨whole, first :: others, ⟨⟨hwhole, ?_, hleading hplain⟩, by simp, ?_⟩, ?_, rfl⟩
    · exact fun c hmem => hdigits c (List.mem_append_left _ hmem)
    · exact fun c hmem => hdigits c (List.mem_append_right _ hmem)
    · rw [← hback]
      refine Decimal.rank_congr ?_
      have hexponent : (decimalOf whole (first :: others)).exponent =
          -((-d.exponent).toNat : Int) := by
        rw [← hlength]
        rfl
      rw [hexponent, neg_neg, Int.toNat_natCast, Int.toNat_neg_natCast, pow_zero, Nat.mul_one]
      exact congrArg (· * 10 ^ (-d.exponent).toNat) hvalue

/-- A finite number is written as a numeral with a sign, which is rounded back. -/
theorem Binary64.chars_settings {x : Binary64} (hfinite : x.isFinite = true) :
    ∃ negative whole fraction, IsNumeral whole fraction ∧
      x.chars .settings = signOf negative ++ (whole ++ '.' :: fraction) ∧
      x = .ofRank negative (decimalOf whole fraction).rank := by
  cases x with
  | nan => cases hfinite
  | number negative rank =>
    have hrank : rank.val < infinityRank := by simpa [isFinite] using hfinite
    obtain ⟨whole, fraction, hn, hback, hwritten⟩ := isNumeral_shortestDecimal rank.val
    refine ⟨negative, whole, fraction, hn, ?_, ?_⟩
    · rw [← hwritten, chars, if_neg hrank.ne]
      rfl
    · simp [hback, ofRank, Nat.min_eq_left hrank.le]

/-- A finite number is read back from its text. -/
theorem Binary64.readBinary64?_chars {x : Binary64} (hfinite : x.isFinite = true) :
    readBinary64? (x.chars .settings) = some x := by
  obtain ⟨negative, whole, fraction, hn, hwritten, hback⟩ := chars_settings hfinite
  rw [hwritten, hn.readBinary64?_eq, ← hback]

end Steward
