import Steward.Settings.Validation
import Mathlib.Data.Option.Basic
import Mathlib.Tactic.SplitIfs

/-!
# Accepted settings

What validation guarantees: each section is accepted exactly if none of its checks fails, and
settings are accepted exactly if their sections are.
-/

namespace Steward

/-- System settings that pass every check. -/
structure SystemSettings.Accepted (s : SystemSettings) : Prop where
  users : s.maxUsers ≠ 0
  reserved : Binary64.le 0 s.reservedCpu = true ∧ s.reservedCpu.lt 100 = true
  cpuFloor : s.minCpu.le 0 = false
  memoryFloor : s.minMemory ≠ 0
  floors : s.available.lt s.floorTotal = false
  monitor : s.monitorSeconds ≠ 0
  guard : s.guardSeconds ≠ 0
  inactive : s.maxInactiveSeconds ≠ 0

/-- Security settings that pass every check. -/
structure SecuritySettings.Accepted (s : SecuritySettings) : Prop where
  perUser : s.maxPerUser ≠ 0
  perAddress : s.maxPerAddress ≠ 0
  messages : s.maxMessages ≠ 0
  bytes : s.maxBytes ≠ 0
  sweep : s.sweepSeconds ≠ 0
  idle : s.idleSeconds ≠ 0

/-- System settings are accepted exactly if no check fails. -/
theorem SystemSettings.refusal?_eq_none_iff {s : SystemSettings} :
    s.refusal? = none ↔ s.Accepted := by
  unfold refusal?
  constructor
  · intro hnone
    split_ifs at hnone with husers hreserved hpositive hfloors hintervals hinactive
    simp only [Bool.not_eq_true', Bool.not_eq_false, Bool.and_eq_true] at hreserved
    simp only [Bool.or_eq_true, decide_eq_true_eq, not_or, Bool.not_eq_true] at hpositive
    exact ⟨husers, hreserved, hpositive.1, hpositive.2, Bool.eq_false_iff.2 hfloors,
      fun hzero => hintervals (.inl hzero), fun hzero => hintervals (.inr hzero), hinactive⟩
  · intro ha
    simp [ha.users, ha.reserved, ha.cpuFloor, ha.memoryFloor, ha.floors, ha.monitor, ha.guard,
      ha.inactive]

/-- Security settings are accepted exactly if no check fails. -/
theorem SecuritySettings.refusal?_eq_none_iff {s : SecuritySettings} :
    s.refusal? = none ↔ s.Accepted := by
  unfold refusal?
  constructor
  · intro hnone
    split_ifs at hnone with hcaps hrates hsweep
    rw [not_or] at hcaps hrates hsweep
    exact ⟨hcaps.1, hcaps.2, hrates.1, hrates.2, hsweep.1, hsweep.2⟩
  · intro ha
    simp [ha.perUser, ha.perAddress, ha.messages, ha.bytes, ha.sweep, ha.idle]

namespace Settings

variable {s : Settings}

/-- Settings are accepted as they are, or not at all. -/
theorem validate_eq_ok_iff : s.validate = .ok s ↔ s.refusal? = none := by
  unfold validate
  cases s.refusal? <;> simp

/-- Validation changes nothing. -/
theorem eq_of_validate {t : Settings} (haccepted : s.validate = .ok t) : s = t := by
  unfold validate at haccepted
  split at haccepted
  · cases haccepted
  · exact Except.ok.inj haccepted

/-- In accepted settings the system section is accepted. -/
theorem system_accepted (haccepted : s.validate = .ok s) : s.system.Accepted := by
  rw [validate_eq_ok_iff, refusal?, Option.orElse_eq_none] at haccepted
  exact SystemSettings.refusal?_eq_none_iff.1 haccepted.1

/-- In accepted settings the security section is accepted. -/
theorem security_accepted (haccepted : s.validate = .ok s) : s.security.Accepted := by
  rw [validate_eq_ok_iff, refusal?, Option.orElse_eq_none, Option.orElse_eq_none] at haccepted
  exact SecuritySettings.refusal?_eq_none_iff.1 haccepted.2.1

end Settings

end Steward
