import Steward.Allowance
import Steward.Proofs.Acceptance
import Steward.Proofs.Rounding
import Mathlib.Tactic.Linarith

/-!
# CPU shares

A share is counted in whole steps, so that the steps of all users fit the pool; but the pool in
steps, the share and the floors of a full population are rounded to the nearest number, which may be
the greater one. So the shares of accepted settings exceed the pool by one part in `2 ^ 51` at most,
and they fit it exactly where the steps leave a remainder and the floors fit it exactly.
-/

namespace Steward

open Binary64

/-! ## The pool -/

/-- A hundred percent is a whole number. -/
theorem hasUnits_hundred : (100 : Binary64).HasUnits (100 * unitsPerOne) :=
  hasUnits_ofNat (n := 100) (by decide)

/-- Steps in one percent are a whole number. -/
theorem hasUnits_stepsPerPercent :
    Allowance.stepsPerPercent.HasUnits (1000000 * unitsPerOne) :=
  hasUnits_ofNat (n := 1000000) (by decide)

/-- A number of percent that is neither tiny nor much above a hundred, with its magnitude. -/
structure Binary64.IsPool (x : Binary64) (pool : Nat) : Prop where
  units : x.HasUnits pool
  low : 100 * unitsPerOne ≤ 2 ^ 54 * pool
  high : pool ≤ 101 * unitsPerOne

/-- What two roundings add is one part in `2 ^ 51` at most. -/
theorem le_of_two_roundings {exact once twice : Nat}
    (hfirst : 2 ^ 53 * once ≤ (2 ^ 53 + 1) * exact)
    (hsecond : 2 ^ 53 * twice ≤ (2 ^ 53 + 1) * once) :
    2 ^ 51 * twice ≤ (2 ^ 51 + 1) * exact := by
  omega

/-- The floors of a population stay within one part in `2 ^ 51`, if the population as a number and
its product with the floor lost one part in `2 ^ 53` each. -/
theorem le_of_lower_roundings {floors product total pool : Nat}
    (hpopulation : (2 ^ 53 - 1) * (floors * unitsPerOne) ≤ 2 ^ 53 * product)
    (hproduct : (2 ^ 53 - 1) * product ≤ 2 ^ 53 * (unitsPerOne * total)) (htotal : total ≤ pool) :
    2 ^ 51 * floors ≤ (2 ^ 51 + 1) * pool := by
  have hunits : unitsPerOne * total ≤ pool * unitsPerOne := by
    rw [Nat.mul_comm]
    exact Nat.mul_le_mul_right _ htotal
  have hscaled : 2 ^ 51 * (floors * unitsPerOne) ≤ (2 ^ 51 + 1) * (pool * unitsPerOne) := by omega
  rw [← Nat.mul_assoc, ← Nat.mul_assoc] at hscaled
  exact Nat.le_of_mul_le_mul_right hscaled unitsPerOne_pos

namespace SystemSettings.Accepted

variable {s : SystemSettings} (ha : s.Accepted)
include ha

/-- What is reserved is less than a hundred percent, and a zero if it has the negative sign. -/
theorem reserved_cases : ∃ negative rank, s.reservedCpu = .number negative rank ∧
    (negative = true → rank.val = 0) ∧ rankUnits rank < 100 * unitsPerOne ∧
      100 * unitsPerOne ≤ 2 ^ 53 * (100 * unitsPerOne - rankUnits rank) := by
  obtain ⟨hlow, hhigh⟩ := ha.reserved
  obtain ⟨hundred, hnumber, -, hunits⟩ := hasUnits_hundred
  rw [hnumber] at hhigh
  cases hreserved : s.reservedCpu with
  | nan =>
    rw [hreserved] at hhigh
    cases hhigh
  | number negative rank =>
    refine ⟨negative, rank, rfl, ?_⟩
    rw [hreserved] at hlow hhigh
    simp only [le, order?_zero] at hlow
    have hbelow : rank.val < hundred.val ∧ (negative = true → rank.val = 0) := by
      cases negative with
      | false => simpa [lt, order?] using hhigh
      | true =>
        have hnothing : rank.val = 0 := by
          simp only [order?, decide_eq_true_eq] at hlow
          omega
        refine ⟨?_, fun _ => hnothing⟩
        rw [hnothing]
        refine Nat.pos_of_ne_zero fun hnone => ?_
        rw [hnone, rankUnits_zero] at hunits
        have hpositive := unitsPerOne_pos
        omega
    rw [← hunits]
    exact ⟨hbelow.2, rankUnits_strictMono hbelow.1, rankUnits_gap hbelow.1⟩

/-- What is left to users is a pool. -/
theorem available_isPool : ∃ pool, s.available.IsPool pool := by
  obtain ⟨negative, rank, hreserved, hzero, hless, hgap⟩ := ha.reserved_cases
  have hlarge := le_unitsPerOne
  have hdifference : s.available = nearest false (100 * unitsPerOne - rankUnits rank) 1 := by
    rw [available, hreserved]
    exact hasUnits_hundred.sub_eq hzero hless
  have hfull : 2 ^ 52 * 1 ≤ 100 * unitsPerOne - rankUnits rank := by omega
  obtain ⟨habove, hbelow⟩ := rankUnits_nearestRank_relative Nat.one_pos hfull
  refine ⟨_, hdifference ▸ hasUnits_nearest_of_lt Nat.one_pos ?_, ?_, ?_⟩
  · omega
  · omega
  · omega

/-- The floor is a NaN or a positive number. -/
theorem floor_cases : s.minCpu = .nan ∨
    ∃ rank, s.minCpu = .number false rank ∧ rank.val ≠ 0 := by
  have hpositive := ha.cpuFloor
  cases hfloor : s.minCpu with
  | nan => exact .inl rfl
  | number negative rank =>
    simp only [hfloor, le, order?_zero] at hpositive
    cases negative with
    | false =>
      refine .inr ⟨rank, rfl, fun hnone => ?_⟩
      simp [order?, hnone] at hpositive
    | true => simp [order?] at hpositive

/-- The population and the floor are finite, since the floors of a full population are below
infinity. -/
theorem floor_hasUnits {pool : Nat} (hpool : s.available.HasUnits pool) :
    s.minCpu = .nan ∨ ∃ population floor, (Binary64.ofNat s.maxUsers).HasUnits population ∧
      s.minCpu.HasUnits floor ∧
        (2 ^ 53 - 1) * (s.maxUsers * unitsPerOne) ≤ 2 ^ 53 * population := by
  obtain hnan | ⟨rank, hfloor, hpositive⟩ := ha.floor_cases
  · exact .inl hnan
  have hbelow : s.floorTotal ≠ infinity false := fun hinfinite => by
    have hrefused := ha.floors
    rw [hinfinite, hpool.lt_infinity] at hrefused
    cases hrefused
  rw [floorTotal, hfloor] at hbelow
  obtain hinfinite | ⟨population, hpopulation, hcount⟩ := ofNat_eq_infinity_or ha.users
  · exact absurd (by rw [hinfinite, infinity_mul hpositive]) hbelow
  · have hleast : 0 < s.maxUsers * unitsPerOne :=
      Nat.mul_pos (Nat.pos_of_ne_zero ha.users) unitsPerOne_pos
    have hfinite : rank.val < infinityRank := by
      refine Nat.lt_of_le_of_ne (Nat.le_of_lt_succ rank.isLt) fun hinfinite => hbelow ?_
      exact hpopulation.mul_infinity (by omega) hinfinite
    exact .inr ⟨population, rankUnits rank, hpopulation, ⟨rank, hfloor, hfinite, rfl⟩, hcount⟩

/-- The rounded floors of a full population fit the pool. -/
theorem floorTotal_le {pool population floor : Nat} (hpool : s.available.HasUnits pool)
    (hpopulation : (Binary64.ofNat s.maxUsers).HasUnits population)
    (hfloor : s.minCpu.HasUnits floor) :
    rankUnits (nearestRank (population * floor) unitsPerOne) ≤ pool := by
  have hkept := ha.floors
  rw [floorTotal, hpopulation.mul_eq hfloor] at hkept
  rcases hasUnits_or_infinity (population * floor) unitsPerOne with htotal | hinfinite
  · refine Nat.le_of_not_lt fun hlt => ?_
    rw [(hpool.lt_iff htotal).2 hlt] at hkept
    cases hkept
  · rw [hinfinite, hpool.lt_infinity] at hkept
    cases hkept

/-- The floors of a full population are a NaN, or exceed the pool by one part in `2 ^ 51` at
most. -/
theorem floors_le {pool : Nat} (hpool : s.available.IsPool pool) :
    s.minCpu = .nan ∨ ∃ floor, s.minCpu.HasUnits floor ∧
      2 ^ 51 * (s.maxUsers * floor) ≤ (2 ^ 51 + 1) * pool := by
  obtain hnan | ⟨population, floor, hpopulation, hfloor, hcount⟩ := ha.floor_hasUnits hpool.units
  · exact .inl hnan
  refine .inr ⟨floor, hfloor, ?_⟩
  have hscaled : (2 ^ 53 - 1) * (s.maxUsers * floor * unitsPerOne) ≤
      2 ^ 53 * (population * floor) := by
    calc (2 ^ 53 - 1) * (s.maxUsers * floor * unitsPerOne) =
        (2 ^ 53 - 1) * (s.maxUsers * unitsPerOne) * floor := by ring
      _ ≤ 2 ^ 53 * population * floor := Nat.mul_le_mul_right _ hcount
      _ = 2 ^ 53 * (population * floor) := by ring
  rcases Nat.lt_or_ge (population * floor) (2 ^ 52 * unitsPerOne) with hsmall | hfull
  · -- Subnormal floors lose more, but the floors of any population are far below the pool.
    have hlarge := le_unitsPerOne
    have hlow := hpool.low
    have htiny : (2 ^ 53 - 1) * (s.maxUsers * floor) * unitsPerOne < 2 ^ 105 * unitsPerOne := by
      rw [Nat.mul_assoc]
      omega
    have hfloors := Nat.lt_of_mul_lt_mul_right htiny
    omega
  · exact le_of_lower_roundings hscaled (rankUnits_nearestRank_relative unitsPerOne_pos hfull).2
      (ha.floorTotal_le hpool.units hpopulation hfloor)

end SystemSettings.Accepted

/-! ## Shares in whole steps -/

/-- The pool in whole steps. -/
def SystemPolicy.cpuSteps (p : SystemPolicy) : Nat :=
  (p.cpuPool * Allowance.stepsPerPercent).floorUpTo wordMax

/-- The steps of the pool are those of its rounded product. -/
theorem SystemPolicy.cpuSteps_le {p : SystemPolicy} {pool : Nat} (hpool : p.cpuPool.IsPool pool) :
    p.cpuSteps < 2 ^ 53 ∧ ∃ rounded, p.cpuSteps * unitsPerOne ≤ rounded ∧
      2 ^ 53 * rounded ≤ (2 ^ 53 + 1) * (1000000 * pool) := by
  obtain ⟨hpool, hlow, hhigh⟩ := hpool
  have hlarge := le_unitsPerOne
  have hproduct := hpool.mul_eq hasUnits_stepsPerPercent
  have hscale : pool * (1000000 * unitsPerOne) = 1000000 * pool * unitsPerOne := by ring
  rw [hscale] at hproduct
  have hfull : 2 ^ 52 * unitsPerOne ≤ 1000000 * pool * unitsPerOne :=
    Nat.mul_le_mul_right _ (by omega)
  obtain ⟨habove, -⟩ := rankUnits_nearestRank_relative unitsPerOne_pos hfull
  have hmoderate : 1000000 * pool * unitsPerOne < unitsPerOne * (2 ^ 128 * unitsPerOne) := by
    rw [Nat.mul_comm]
    exact Nat.mul_lt_mul_of_pos_left (by omega) unitsPerOne_pos
  have hrounded := hasUnits_nearest_of_lt unitsPerOne_pos hmoderate
  generalize rankUnits (nearestRank (1000000 * pool * unitsPerOne) unitsPerOne) = rounded
    at habove hrounded
  have hrelative : 2 ^ 53 * rounded ≤ (2 ^ 53 + 1) * (1000000 * pool) := by
    refine Nat.le_of_mul_le_mul_right ?_ unitsPerOne_pos
    calc 2 ^ 53 * rounded * unitsPerOne = 2 ^ 53 * (unitsPerOne * rounded) := by ring
      _ ≤ (2 ^ 53 + 1) * (1000000 * pool * unitsPerOne) := habove
      _ = (2 ^ 53 + 1) * (1000000 * pool) * unitsPerOne := by ring
  have hsteps : p.cpuSteps ≤ rounded / unitsPerOne := by
    rw [cpuSteps, hproduct, hrounded.floorUpTo_eq]
    exact Nat.min_le_right _ _
  have hwhole : p.cpuSteps * unitsPerOne ≤ rounded :=
    (Nat.le_div_iff_mul_le unitsPerOne_pos).1 hsteps
  refine ⟨Nat.lt_of_mul_lt_mul_right (a := unitsPerOne) ?_, rounded, hwhole, hrelative⟩
  omega

/-- A share is an even part of the steps, raised to the floor. -/
theorem Allowance.maxCpu_fairShare (p : SystemPolicy) (memory users : Nat) :
    (Allowance.fairShare p memory users).maxCpu =
      (Binary64.ofNat (p.cpuSteps / max users 1) / stepsPerPercent).max p.minCpu := by
  simp only [fairShare, cpuShare, SystemPolicy.cpuSteps]

/-- Steps in percent are rounded once. -/
theorem hasUnits_steps {steps : Nat} (hsmall : steps < 2 ^ 53) :
    ∃ share, (Binary64.ofNat steps / Allowance.stepsPerPercent).HasUnits share ∧
      2 ^ 53 * (1000000 * share) ≤ (2 ^ 53 + 1) * (steps * unitsPerOne) := by
  have hlarge := le_unitsPerOne
  have hdenominator : 0 < 1000000 * unitsPerOne := by omega
  have hquotient :=
    (hasUnits_ofNat hsmall).div_eq hasUnits_stepsPerPercent hdenominator.ne'
  have hmoderate : steps * unitsPerOne * unitsPerOne <
      1000000 * unitsPerOne * (2 ^ 128 * unitsPerOne) := by
    have hwhole : steps * unitsPerOne < 2 ^ 53 * unitsPerOne :=
      Nat.mul_lt_mul_of_pos_right hsmall unitsPerOne_pos
    have hless : steps * unitsPerOne < 1000000 * (2 ^ 128 * unitsPerOne) := by omega
    calc steps * unitsPerOne * unitsPerOne < 1000000 * (2 ^ 128 * unitsPerOne) * unitsPerOne :=
          Nat.mul_lt_mul_of_pos_right hless unitsPerOne_pos
      _ = 1000000 * unitsPerOne * (2 ^ 128 * unitsPerOne) := by ring
  refine ⟨_, hquotient ▸ hasUnits_nearest_of_lt hdenominator hmoderate, ?_⟩
  refine Nat.le_of_mul_le_mul_right ?_ unitsPerOne_pos
  have hregroup : ∀ share, 2 ^ 53 * (1000000 * share) * unitsPerOne =
      2 ^ 53 * (1000000 * unitsPerOne * share) := fun share => by ring
  rw [hregroup, Nat.mul_assoc (2 ^ 53 + 1)]
  rcases Nat.eq_zero_or_pos steps with rfl | hpositive
  · have hzero : nearestRank (0 * unitsPerOne * unitsPerOne) (1000000 * unitsPerOne) = 0 := by
      simp [nearestRank, nearestQuotient]
    rw [hzero, rankUnits_zero, Nat.mul_zero, Nat.mul_zero]
    exact Nat.zero_le _
  · refine (rankUnits_nearestRank_relative hdenominator ?_).1
    calc 2 ^ 52 * (1000000 * unitsPerOne) ≤ unitsPerOne * unitsPerOne := by
          rw [← Nat.mul_assoc]
          exact Nat.mul_le_mul_right _ (by omega)
      _ ≤ steps * unitsPerOne * unitsPerOne :=
          Nat.mul_le_mul_right _ (Nat.le_mul_of_pos_left _ hpositive)

/-- Even shares of the pool exceed it by one part in `2 ^ 51` at most; a step that is left over
covers that. -/
theorem SystemPolicy.evenShare_spec {p : SystemPolicy} {pool : Nat}
    (hpool : p.cpuPool.IsPool pool) (users : Nat) :
    ∃ share, (Binary64.ofNat (p.cpuSteps / users) / Allowance.stepsPerPercent).HasUnits share ∧
      2 ^ 51 * (users * share) ≤ (2 ^ 51 + 1) * pool ∧
      (¬ users ∣ p.cpuSteps → users * share ≤ pool) := by
  have hhigh := hpool.high
  obtain ⟨hsmall, rounded, hwhole, hproduct⟩ := p.cpuSteps_le hpool
  obtain ⟨share, hshare, hquotient⟩ :=
    hasUnits_steps ((Nat.div_le_self p.cpuSteps users).trans_lt hsmall)
  have htogether : 2 ^ 53 * (1000000 * (users * share)) ≤
      (2 ^ 53 + 1) * (users * (p.cpuSteps / users) * unitsPerOne) := by
    calc 2 ^ 53 * (1000000 * (users * share)) = users * (2 ^ 53 * (1000000 * share)) := by ring
      _ ≤ users * ((2 ^ 53 + 1) * (p.cpuSteps / users * unitsPerOne)) :=
          Nat.mul_le_mul_left _ hquotient
      _ = (2 ^ 53 + 1) * (users * (p.cpuSteps / users) * unitsPerOne) := by ring
  refine ⟨share, hshare, ?_, fun hleft => ?_⟩
  · have hfit : users * (p.cpuSteps / users) * unitsPerOne ≤ p.cpuSteps * unitsPerOne :=
      Nat.mul_le_mul_right _ (Nat.mul_div_le _ _)
    have hscaled : 2 ^ 51 * (1000000 * (users * share)) ≤ (2 ^ 51 + 1) * (1000000 * pool) :=
      le_of_two_roundings hproduct (by omega)
    omega
  · have hfit : (users * (p.cpuSteps / users) + 1) * unitsPerOne ≤ p.cpuSteps * unitsPerOne := by
      have hrest := Nat.div_add_mod p.cpuSteps users
      have hpositive := Nat.pos_of_ne_zero fun hnone => hleft (Nat.dvd_of_mod_eq_zero hnone)
      exact Nat.mul_le_mul_right _ (by omega)
    rw [Nat.add_mul] at hfit
    omega

/-! ## Shares of accepted settings -/

@[simp] theorem Settings.systemPolicy_minCpu (s : Settings) :
    s.systemPolicy.minCpu = s.system.minCpu := rfl

/-- The pool of accepted settings is what is left to users. -/
theorem Settings.cpuPool_isPool {s : Settings} {pool : Nat}
    (hpool : s.system.available.IsPool pool) : s.systemPolicy.cpuPool.IsPool pool := by
  have hmax := hpool.units.max hasUnits_zero
  rw [Nat.max_eq_left (Nat.zero_le _)] at hmax
  exact ⟨hmax, hpool.low, hpool.high⟩

/-- A share of accepted settings: the even share, raised to the floor unless that is a NaN. -/
theorem Settings.fairShare_spec {s : Settings} {pool : Nat} (haccepted : s.system.Accepted)
    (hpool : s.system.available.IsPool pool) (memory : Nat) {users : Nat} (hpositive : 1 ≤ users)
    (hroom : users ≤ s.system.maxUsers) :
    ∃ share, (Allowance.fairShare s.systemPolicy memory users).maxCpu.HasUnits share ∧
      2 ^ 51 * (users * share) ≤ (2 ^ 51 + 1) * pool ∧
      (s.system.minCpu = .nan ∨ ∃ floor, s.system.minCpu.HasUnits floor ∧ floor ≤ share) ∧
      (¬ users ∣ s.systemPolicy.cpuSteps →
        (∀ floor, s.system.minCpu.HasUnits floor → users * floor ≤ pool) →
          users * share ≤ pool) := by
  obtain ⟨even, heven, hslack, hleft⟩ :=
    SystemPolicy.evenShare_spec (Settings.cpuPool_isPool hpool) users
  have hshare : (Allowance.fairShare s.systemPolicy memory users).maxCpu =
      (Binary64.ofNat (s.systemPolicy.cpuSteps / users) / Allowance.stepsPerPercent).max
        s.system.minCpu := by
    rw [Allowance.maxCpu_fairShare, Nat.max_eq_left hpositive, Settings.systemPolicy_minCpu]
  rw [hshare]
  obtain hnan | ⟨floor, hfloor, hfloors⟩ := haccepted.floors_le hpool
  · rw [hnan, heven.max_nan]
    exact ⟨even, heven, hslack, .inl rfl, fun hrest _ => hleft hrest⟩
  · refine ⟨max even floor, heven.max hfloor, ?_, .inr ⟨floor, hfloor, le_max_right _ _⟩, ?_⟩
    · have hfew : users * floor ≤ s.system.maxUsers * floor := Nat.mul_le_mul_right _ hroom
      rcases max_choice even floor with hmax | hmax <;> rw [hmax] <;> omega
    · intro hrest hfits
      have hown := hfits floor hfloor
      have hothers := hleft hrest
      rcases max_choice even floor with hmax | hmax <;> rwa [hmax]

/-- The shares of accepted settings are finite, and not below the floor unless that is a NaN. All
users together are granted one part in `2 ^ 51` more than the pool at most, and no more than the
pool if the steps leave a remainder and the floors fit. -/
theorem Settings.cpu_shares_near_pool {s : Settings} (haccepted : s.validate = .ok s)
    (memory users : Nat) (hpositive : 1 ≤ users) (hroom : users ≤ s.system.maxUsers) :
    let share := (Allowance.fairShare s.systemPolicy memory users).maxCpu
    let pool := s.systemPolicy.cpuPool
    share.isFinite = true ∧ pool.isFinite = true ∧
      (s.system.minCpu.le share = true ↔ s.system.minCpu ≠ .nan) ∧
      (users : ℚ) * share.toRat ≤ pool.toRat * (1 + 1 / 2 ^ 51) ∧
      (¬ users ∣ s.systemPolicy.cpuSteps → (users : ℚ) * s.system.minCpu.toRat ≤ pool.toRat →
        (users : ℚ) * share.toRat ≤ pool.toRat) := by
  have hsystem := Settings.system_accepted haccepted
  obtain ⟨pool, havailable⟩ := hsystem.available_isPool
  have hpool := (Settings.cpuPool_isPool havailable).units
  obtain ⟨share, hshare, hslack, hfloor, hfits⟩ :=
    Settings.fairShare_spec hsystem havailable memory hpositive hroom
  have hcompare {x : Binary64} {units : Nat} (hx : x.HasUnits units) :
      (users : ℚ) * x.toRat ≤ s.systemPolicy.cpuPool.toRat ↔ users * units ≤ pool := by
    have hiff := hx.mul_toRat_le_iff hpool users 1
    rwa [Nat.cast_one, one_mul, Nat.one_mul] at hiff
  dsimp only
  refine ⟨hshare.isFinite, hpool.isFinite, ?_, ?_, fun hrest hown => ?_⟩
  · obtain hnan | ⟨floor, hunits, hle⟩ := hfloor
    · rw [hnan, nan_le]
      exact iff_of_false Bool.false_ne_true fun hnumber => hnumber rfl
    · refine iff_of_true ((hunits.le_iff hshare).2 hle) fun hnan => ?_
      obtain ⟨rank, hnumber, -, -⟩ := hunits
      rw [hnan] at hnumber
      cases hnumber
  · have hscaled : ((2 ^ 51 * users : Nat) : ℚ) *
        (Allowance.fairShare s.systemPolicy memory users).maxCpu.toRat ≤
          ((2 ^ 51 + 1 : Nat) : ℚ) * s.systemPolicy.cpuPool.toRat :=
      (hshare.mul_toRat_le_iff hpool _ _).2 (by rwa [Nat.mul_assoc])
    push_cast at hscaled
    linarith
  · exact (hcompare hshare).2 (hfits hrest fun floor hunits => (hcompare hunits).1 hown)

/-- Seven users of the default settings leave a remainder of steps. -/
theorem Settings.cpu_shares_of_seven_users :
    let s : Settings := {}
    s.validate = .ok s ∧ (7 : ℚ) * s.system.minCpu.toRat ≤ s.systemPolicy.cpuPool.toRat ∧
      ¬ 7 ∣ s.systemPolicy.cpuSteps ∧
      (7 : ℚ) * (Allowance.fairShare s.systemPolicy 2048 7).maxCpu.toRat ≤
        s.systemPolicy.cpuPool.toRat := by
  have haccepted : ({} : Settings).validate = .ok {} :=
    Settings.validate_eq_ok_iff.2 (by decide +kernel)
  have hfloors : (7 : ℚ) * ({} : Settings).system.minCpu.toRat ≤
      ({} : Settings).systemPolicy.cpuPool.toRat := by decide +kernel
  have hrest : ¬ 7 ∣ ({} : Settings).systemPolicy.cpuSteps := by decide +kernel
  obtain ⟨-, -, -, -, hfits⟩ :=
    Settings.cpu_shares_near_pool haccepted 2048 7 (by decide) (by decide)
  exact ⟨haccepted, hfloors, hrest, hfits hrest hfloors⟩

/-- Accepted settings whose floor is no number, whose shares exceed the pool, and whose floors do.
-/
theorem Settings.cpu_shares_may_exceed_pool :
    let blank : Settings := { system := { minCpu := .nan } }
    let shared : Settings := { system := { reservedCpu := 10 } }
    let floored : Settings := { system :=
      { maxUsers := 3, reservedCpu := 0, minCpu := 100 / 3 } }
    (blank.validate = .ok blank ∧
      blank.system.minCpu.le (Allowance.fairShare blank.systemPolicy 4096 1).maxCpu = false) ∧
      (shared.validate = .ok shared ∧ shared.systemPolicy.cpuPool.toRat <
        (50 : ℚ) * (Allowance.fairShare shared.systemPolicy 4096 50).maxCpu.toRat) ∧
      floored.validate = .ok floored ∧ floored.systemPolicy.cpuPool.toRat <
        (3 : ℚ) * (Allowance.fairShare floored.systemPolicy 4096 3).maxCpu.toRat := by
  refine ⟨⟨?_, ?_⟩, ⟨?_, ?_⟩, ?_, ?_⟩
  · exact Settings.validate_eq_ok_iff.2 (by decide +kernel)
  · decide +kernel
  · exact Settings.validate_eq_ok_iff.2 (by decide +kernel)
  · decide +kernel
  · exact Settings.validate_eq_ok_iff.2 (by decide +kernel)
  · decide +kernel

end Steward
