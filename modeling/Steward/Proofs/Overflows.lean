import Steward.Proofs.Acceptance
import Steward.Proofs.Patrols

/-!
# Where words and clocks end

Validation looks at each setting alone, while the host multiplies the memory floor by the population
and adds times to its clock. So accepted settings still decide, together with the time, whether a
host can be built, whether programs can be started, and which patrols begin. Nothing else stops any
of these.
-/

namespace Steward.Host

variable {h : Host} {policies : Policies} {sampler : Sampler} {timers : Bool} {clockEnd : Span}

/-! ## Building -/

/-- A host is built from settings exactly if a word can hold the memory floors of a full
population. -/
theorem assemble_eq_ok_iff :
    (∃ start, assemble policies sampler timers clockEnd = .ok start) ↔
      policies.system.minMemory * policies.system.maxUsers ≤ wordMax := by
  unfold assemble build floorTotal?
  dsimp only
  split_ifs with hfits <;> simp [Except.map, hfits]

/-- A host that is built from settings has the clock of its machine. -/
theorem clockEnd_of_assemble {start : Host}
    (hbuilt : assemble policies sampler timers clockEnd = .ok start) :
    start.clockEnd = clockEnd := by
  obtain ⟨events, rfl, -⟩ := emitAll_of_assemble hbuilt
  exact (quiet_emitAll _ events).clockEnd

/-! ## Times -/

/-- The clock cannot hold points from its end on. -/
theorem later?_eq_none_iff {length : Span} :
    h.later? length = none ↔ h.clockEnd.nanos ≤ h.now.nanos + length.nanos := by
  unfold later? Span.after?
  split_ifs with hfits
  · simpa using hfits
  · simpa using hfits

/-- The clock can hold points before its end. -/
theorem later?_eq_some {length : Span} (hfits : h.now.nanos + length.nanos < h.clockEnd.nanos) :
    h.later? length = some ⟨h.now.nanos + length.nanos⟩ :=
  if_pos hfits

/-- The start of a program has a result exactly if the user is unknown or the clock can hold the
deadline. -/
theorem start_eq_ok_iff {user program : String} {limit : Span}
    (hlimit : ∀ owner, h.users.find? user = some owner → owner.allowance.maxExecutionTime = limit) :
    (∃ result, (h.start user program).1 = .ok result) ↔
      (h.isRegistered user = true → h.now.nanos + limit.nanos < h.clockEnd.nanos) := by
  constructor
  · rintro ⟨result, hresult⟩ hregistered
    obtain ⟨owner, howner⟩ := Table.contains_iff.1 hregistered
    refine Nat.lt_of_not_le fun hend => ?_
    rw [← later?_eq_none_iff, ← hlimit owner howner] at hend
    rw [start_eq_error_iff.2 ⟨rfl, owner, howner, hend⟩] at hresult
    cases hresult
  · intro hfits
    cases hresult : (h.start user program).1 with
    | ok result => exact ⟨result, rfl⟩
    | error overflow =>
      obtain ⟨-, owner, howner, hend⟩ := start_eq_error_iff.1 hresult
      rw [hlimit owner howner, later?_eq_none_iff] at hend
      have hregistered : h.isRegistered user = true := Table.contains_iff.2 ⟨owner, howner⟩
      exact absurd (hfits hregistered) (Nat.not_lt.2 hend)

/-- Accepted settings have periods for all patrols. -/
theorem period_ne_zero {s : Settings} (haccepted : s.validate = .ok s)
    (hpolicies : h.policies = s.policies) (patrol : Patrol) : (h.period patrol).nanos ≠ 0 := by
  have hseconds {seconds : Nat} (hpositive : seconds ≠ 0) :
      (Span.ofSeconds seconds).nanos ≠ 0 := by
    simp only [Span.ofSeconds, Span.nanosPerSecond]
    omega
  unfold period
  rw [hpolicies]
  cases patrol with
  | monitor => exact hseconds (Settings.system_accepted haccepted).monitor
  | memoryGuard => exact hseconds (Settings.system_accepted haccepted).guard
  | idleSweep => exact hseconds (Settings.security_accepted haccepted).sweep

/-- What accepted settings leave to go wrong, on a machine with any clock. A host is built from them
exactly if a word can hold the memory floors of a full population. In everything that is done to it
then, the start of a program by a registered user has a result exactly if the clock can hold the
deadline, and a patrol that is spawned before shutdown begins exactly if the clock can hold its
first point. It waits until that point, and from then on for one that is ahead, as long as the clock
can hold another period. -/
theorem accepted_settings_overflow {s : Settings} (haccepted : s.validate = .ok s)
    (sampler : Sampler) (timers : Bool) (clockEnd : Span) :
    ((∃ start, assemble s.policies sampler timers clockEnd = .ok start) ↔
      s.system.minMemory * s.system.maxUsers ≤ wordMax) ∧
    ∀ start actions, assemble s.policies sampler timers clockEnd = .ok start →
      let h := start.performAll actions
      (∀ user program, (∃ result, (h.start user program).1 = .ok result) ↔
        (h.isRegistered user = true →
          h.now.nanos + (Span.ofSeconds s.execution.maxExecutionSeconds).nanos <
            clockEnd.nanos)) ∧
      (h.isShuttingDown = false → ∀ patrol,
        let period := h.period patrol
        let first : Span := ⟨h.now.nanos + period.nanos⟩
        (first < clockEnd →
          ∃ id, h.nextId ≤ id ∧ ⟨id, first, .patrol patrol⟩ ∈ h.spawnPatrols.tasks ∧
            ∀ millis, ∀ g ∈ [h.spawnPatrols.advance millis, h.spawnPatrols.sleep millis],
              (g.now < first → ⟨id, first, .patrol patrol⟩ ∈ g.tasks) ∧
              (g.now.nanos + period.nanos < clockEnd.nanos →
                ∃ next, ⟨id, next, .patrol patrol⟩ ∈ g.tasks ∧ g.now < next)) ∧
        (clockEnd ≤ first →
          ∀ task ∈ h.spawnPatrols.tasks, task.work = .patrol patrol → task.id < h.nextId)) := by
  refine ⟨assemble_eq_ok_iff, fun start actions hassembled => ?_⟩
  have hbuilt : IsBuilt s.policies sampler timers start := ⟨clockEnd, .inr hassembled⟩
  have hreach := hbuilt.isReachable actions
  have hpolicies := hbuilt.policies_eq actions
  have hchanges := start.performAll_changes actions (hbuilt.quiet.served le_rfl)
  have hclock := hchanges.sameBuild.clockEnd.trans (clockEnd_of_assemble hassembled)
  dsimp only
  generalize start.performAll actions = h at hreach hpolicies hclock ⊢
  subst hclock
  refine ⟨fun user program => start_eq_ok_iff fun owner howner => ?_, fun hrunning patrol => ?_⟩
  · rw [hreach.sharesFairly.allowance_eq howner, shareOf, hpolicies]
    rfl
  · obtain ⟨hspawned, hbegins, hends⟩ := (hreach.awake hrunning).spawnPatrols hreach.served_le
      (fun patrol => period_ne_zero haccepted hpolicies patrol) patrol
    constructor
    · intro hfits
      obtain ⟨id, hnew, hfirst⟩ := hbegins _ (later?_eq_some hfits)
      refine ⟨id, hnew, hfirst, fun millis g hpassed => ⟨?_, fun _ => ?_⟩⟩
      · exact hspawned.task_waits hfirst millis g hpassed
      · exact hspawned.patrol_advances ⟨_, hfirst⟩ millis g hpassed
    · intro hend task hmem hwork
      exact hends (later?_eq_none_iff.2 hend) task.id ⟨task.due, hwork ▸ hmem⟩

/-- The default settings on a small machine that has run for an hour. -/
theorem default_settings_overflow :
    let s : Settings := {}
    s.validate = .ok s ∧ ∃ start,
      assemble s.policies ⟨⟨100, 0, 2048, 0⟩, none⟩ true (.clockEnd (.ofSeconds 3600)) = .ok start ∧
        let h := start.performAll [.registerUser "ana"]
        (∃ result, (h.start "ana" "demo").1 = .ok result) ∧
          ∃ id, ⟨id, .ofSeconds 5, .patrol .monitor⟩ ∈ h.spawnPatrols.tasks ∧
            ⟨id, .ofSeconds 5, .patrol .monitor⟩ ∈ (h.spawnPatrols.sleep 4999).tasks ∧
            ∃ next, ⟨id, next, .patrol .monitor⟩ ∈ (h.spawnPatrols.sleep 5000).tasks ∧
              .ofSeconds 5 < next := by
  have haccepted : ({} : Settings).validate = .ok {} :=
    Settings.validate_eq_ok_iff.2 (by decide +kernel)
  obtain ⟨hbuilds, hruns⟩ := accepted_settings_overflow haccepted ⟨⟨100, 0, 2048, 0⟩, none⟩ true
    (.clockEnd (.ofSeconds 3600))
  obtain ⟨start, hstart⟩ := hbuilds.2 (by decide)
  obtain ⟨hstarts, hpatrols⟩ := hruns start [.registerUser "ana"] hstart
  cases hstart
  obtain ⟨id, -, hfirst, hpasses⟩ := (hpatrols rfl .monitor).1 (by decide)
  have hslept (millis : Nat) :=
    hpasses millis _ (List.mem_cons_of_mem _ (List.mem_singleton_self _))
  exact ⟨haccepted, _, rfl, (hstarts "ana" "demo").2 fun _ => by decide, id, hfirst,
    (hslept 4999).1 (by decide), (hslept 5000).2 (by decide)⟩

/-- Whether a program can be started may depend on how long the machine has run. -/
example :
    let policies := Settings.policies { execution := { maxExecutionSeconds := signBound - 2 } }
    let outcome (uptime : Span) :=
      (((empty policies ⟨⟨100, 0, 2048, 0⟩, none⟩ true (.clockEnd uptime)).performAll
        [.registerUser "ana"]).start "ana" "demo").1
    (∃ handle, outcome (.ofSeconds 1) = .ok (.ok handle)) ∧
      outcome (.ofSeconds 2) = .error .deadline :=
  ⟨⟨_, rfl⟩, rfl⟩

/-- On a machine that was just started, accepted settings of which no host can be built, with which
no program can be started, and with which the monitor does not begin. -/
theorem accepted_settings_may_overflow :
    let machine : Sampler := ⟨⟨100, 0, 2048, 0⟩, none⟩
    let clockEnd : Span := .clockEnd ⟨0⟩
    let greedy : Settings := { system := { minMemory := 9223372036854775807 } }
    let endless : Settings := { execution := { maxExecutionSeconds := wordMax } }
    let drowsy : Settings := { system := { monitorSeconds := wordMax } }
    (greedy.validate = .ok greedy ∧
        assemble greedy.policies machine true clockEnd = .error .product) ∧
      (endless.validate = .ok endless ∧ ∃ start,
        assemble endless.policies machine true clockEnd = .ok start ∧
          ((start.performAll [.registerUser "ana"]).start "ana" "demo").1 = .error .deadline) ∧
      drowsy.validate = .ok drowsy ∧ ∃ start,
        assemble drowsy.policies machine true clockEnd = .ok start ∧
          start.spawnPatrols.tasks.map Task.work = [.patrol .memoryGuard, .patrol .idleSweep] := by
  refine ⟨⟨?_, rfl⟩, ⟨?_, _, rfl, rfl⟩, ?_, _, rfl, ?_⟩
  · exact Settings.validate_eq_ok_iff.2 (by decide +kernel)
  · exact Settings.validate_eq_ok_iff.2 (by decide +kernel)
  · exact Settings.validate_eq_ok_iff.2 (by decide +kernel)
  · decide

end Steward.Host
