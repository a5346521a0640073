import Steward.Proofs.Chronicle

/-!
# The journal is complete

Who reads the journal of a host from its beginning knows the users, the sessions with their owners
and addresses, and the runs with their programs. No line contradicts what was told before, so every
run is reported as started once and, when it ended, as stopped once, with what it had counted.
-/

namespace Steward

/-- Whether an action starts or checks no run and leaves the clock and the tasks alone. -/
def Action.isPlain : Action → Bool
  | .start .. | .check .. | .jump _ => false
  | action => !action.runsTasks

/-- Events without a start tell of no start of anybody's. -/
theorem startsOf_eq_zero {events : List Event} (hnone : ∀ event ∈ events, event.isStart = false)
    (user : String) : startsOf user events = 0 := by
  refine List.countP_eq_zero.2 fun event hmem hcounted => ?_
  have hother := hnone event hmem
  split at hcounted
  · cases hother
  · cases hcounted

/-- Events without an end tell of no end of anybody's. -/
theorem stopsOf_eq_zero {events : List Event} (hnone : ∀ event ∈ events, event.isStop = false)
    (user : String) : stopsOf user events = 0 := by
  refine List.countP_eq_zero.2 fun event hmem hcounted => ?_
  have hother := hnone event hmem
  split at hcounted
  · cases hother
  · cases hcounted

namespace Host

/-- What an action did is told, with either starts or ends of runs among it. -/
structure Reported (h g : Host) : Prop where
  kept : ∀ user run later, h.runs.find? user = some run → g.runs.find? user = some later →
    later.scope = run.scope
  told : ∃ events, Tells events h g ∧
    (∀ event ∈ events, event.isStop = true → ReportsEnd h g event) ∧
    ((∀ event ∈ events, event.isStart = false) ∨ ∀ event ∈ events, event.isStop = false)

variable {h g : Host}

/-- A chronicle tells of no start. -/
theorem Chronicle.reported (hg : Chronicle h g) : Reported h g where
  kept user run later hbefore hafter := by
    rw [hg.runs user later hafter] at hbefore
    cases hbefore
    rfl
  told := by
    obtain ⟨events, htells, hends⟩ := hg.told
    exact ⟨events, htells, fun event hmem => (hends event hmem).2,
      .inl fun event hmem => (hends event hmem).1⟩

/-- What a plain action does is an entry. -/
theorem entry_perform (h : Host) {action : Action} (hplain : action.isPlain = true) :
    Entry h (h.perform action) := by
  cases action with
  | registerUser user => exact h.entry_registerUser user
  | unregisterUser user => exact h.entry_unregisterUser user
  | retireUser user => exact h.entry_retireUser user
  | userScope user => exact h.entry_userScope user
  | userAllowance user => exact h.entry_userAllowance user
  | touch user => exact h.entry_touch user
  | recordUsage user cpu memory => exact h.entry_recordUsage user cpu memory
  | checkUsage user => exact h.entry_checkUsage user
  | acquireWorker user => exact h.entry_acquireWorker user
  | releaseWorker permit => exact h.entry_releaseWorker permit
  | setSampler sampler => exact .of_same rfl rfl rfl rfl rfl rfl
  | monitorCycle => exact h.entry_monitorCycle
  | stop user => exact h.entry_stop user
  | stopIfRunning user => exact h.entry_stopIfRunning user (.inl rfl)
  | registerSession session user address => exact h.entry_registerSession session user address
  | unregisterSession session => exact h.entry_unregisterSession session
  | checkSession session size => exact h.entry_checkSession session size
  | cancelScope scope =>
    simp only [perform]
    split_ifs
    · exact h.entry_cancel scope
    · exact .refl h
  | childScope => exact h.entry_childScope
  | releaseScope scope => exact h.entry_releaseScope scope
  | guardCycle => exact cycling_entry.guardCycle h
  | sweep => exact cycling_entry.sweep h
  | reportStatus => exact .note h rfl
  | _ => cases hplain

/-- Watching a deadline is not told of, but that there is no watch is noted. -/
theorem told_watchDeadline (h : Host) (user : String) (run : Run) :
    ∃ events, Tells events h (h.watchDeadline user run) ∧
      ∀ event ∈ events, event.isNote = true := by
  unfold watchDeadline
  split_ifs
  · exact ⟨[], .of_notes rfl rfl (by simp), by simp⟩
  · have hnote : ∀ event ∈ [Event.deadlineUnwatched user], event.isNote = true := by
      simp [Event.isNote]
    exact ⟨_, .of_notes rfl rfl hnote, hnote⟩

/-- A start of a program is told. -/
theorem reported_start (h : Host) (user program : String) :
    Reported h (h.start user program).2 := by
  rcases h.start_cases user program with hentry | ⟨owner, run, howner, hidle, -, -, hstarted⟩
  · exact hentry.toChronicle.reported
  · let begun : Host :=
      { h with
        users := h.users.insert user { owner with lastActivity := h.stamp }
        runs := h.runs.insert user run
        nextId := h.nextId + 1 }.emit (.programStarted user run.program run.limit.seconds)
    have hwatched := begun.quiet_watchDeadline user run
    obtain ⟨notes, hnotes, hnoted⟩ := begun.told_watchDeadline user run
    have hidle' : h.ledger.runs.find? user = none := by simp [ledger, hidle]
    have hroster : (h.users.insert user { owner with lastActivity := h.stamp }).map (fun _ => ()) =
        h.roster := roster_insert howner _
    have hbegun : Tells [.programStarted user run.program run.limit.seconds] h begun := by
      refine .of_event rfl ?_
      rw [Ledger.tell_programStarted, Table.add?_of_find? hidle', Option.map_some]
      simp only [ledger, begun, emit, Table.map_insert]
      simp [roster_eq, hroster, owners]
    rw [hstarted]
    constructor
    · intro other found later hbefore hafter
      rw [hwatched.runs] at hafter
      have hother : other ≠ user := by
        rintro rfl
        rw [hidle] at hbefore
        cases hbefore
      have hsame := (Table.find?_insert_of_ne h.runs run hother).symm.trans hafter
      rw [hbefore] at hsame
      cases hsame
      rfl
    · have hnone : ∀ event ∈ notes ++ [.programStarted user run.program run.limit.seconds],
          event.isStop = false := by
        intro event hmem
        rcases List.mem_append.1 hmem with hmem | hmem
        · exact (Event.of_isNote (hnoted event hmem)).2
        · rw [List.mem_singleton.1 hmem]
          rfl
      refine ⟨_, hbegun.trans hnotes, fun event hmem hends => ?_, .inr hnone⟩
      rw [hnone event hmem] at hends
      cases hends

/-- A check of a statement is told, if it ends the run. -/
theorem reported_check (h : Host) (user : String) (statement : Statement) :
    Reported h (h.check user statement).2 := by
  rcases h.check_cases user statement with hentry | ⟨run, hfound, -, hcounted⟩
  · exact hentry.toChronicle.reported
  · obtain ⟨users, journal, htouched⟩ := h.touch_eq user
    have htouch : ({ h with runs := h.runs.insert user (run.counting statement) }.touch user).2 =
        { h with users, journal, runs := h.runs.insert user (run.counting statement) } := by
      have hruns (runs : Table Run) : ({ h with runs } : Host).touch user =
          ((h.touch user).1, { (h.touch user).2 with runs }) := by
        unfold touch user?
        cases h.users.find? user <;> rfl
      rw [hruns, htouched]
    have hprograms : (h.runs.insert user (run.counting statement)).map Run.program =
        h.runs.map Run.program := by
      rw [Table.map_insert]
      exact Table.insert_of_find? (by simp [hfound, Run.counting])
    have hentry := h.entry_touch user
    rw [htouched] at hentry
    obtain ⟨events, htells, hends⟩ := hentry.told
    rw [hcounted, htouch]
    constructor
    · intro other found later hbefore hafter
      simp only [Table.find?_insert] at hafter
      split_ifs at hafter with hother
      · subst hother
        rw [hfound] at hbefore
        cases hbefore
        cases hafter
        rfl
      · rw [hbefore] at hafter
        cases hafter
        rfl
    · refine ⟨events, ⟨htells.journal, ?_⟩, fun event hmem => (hends event hmem).2,
        .inl fun event hmem => (hends event hmem).1⟩
      rw [htells.ledger]
      simp [ledger, roster_eq, owners, hprograms]

/-- What any action does is told. -/
theorem reported_perform (h : Host) (action : Action) (hserved : h.served ≤ h.clock) :
    Reported h (h.perform action) := by
  cases action with
  | start user program => exact h.reported_start user program
  | check user statement => exact h.reported_check user statement
  | spawnPatrols => exact (firing_chronicle.spawnPatrols timing_chronicle h).reported
  | spawnSleeper millis cancellable =>
    exact (firing_chronicle.spawnSleeper timing_chronicle h millis cancellable).reported
  | shutdown millis =>
    have hshut (g : Host) : Chronicle g (g.cancel .background) := (g.entry_cancel _).toChronicle
    exact (timing_chronicle.shutdown hshut h millis hserved).reported
  | jump millis => exact (timing_chronicle.jump h millis).reported
  | advance millis => exact (timing_chronicle.advance h millis).reported
  | sleep millis => exact (timing_chronicle.sleep h millis).reported
  | _ => exact (h.entry_perform rfl).toChronicle.reported

/-! ## Whole histories -/

/-- What was there when a host was built is told. -/
theorem IsBuilt.entry {policies : Policies} {sampler : Sampler} {timers : Bool}
    (hbuilt : IsBuilt policies sampler timers h) :
    Entry (empty policies sampler timers h.clockEnd) h := by
  obtain ⟨clockEnd, events, rfl, hremarks⟩ := hbuilt.eq_emitAll
  have hcalm := (empty policies sampler timers clockEnd).calm_emitAll hremarks
  rw [hcalm.clockEnd]
  exact .of_calm hcalm (tasks_emitAll _ _)

/-- What is done to a host is told. -/
theorem told_performAll (h : Host) (actions : List Action) (hserved : h.served ≤ h.clock) :
    ∃ events, Tells events h (h.performAll actions) := by
  induction actions generalizing h with
  | nil => exact ⟨[], .of_notes rfl rfl (by simp)⟩
  | cons action rest ih =>
    obtain ⟨events, htells, -⟩ := (h.reported_perform action hserved).told
    have hlater := (h.perform_changes action hserved).served_le hserved
    obtain ⟨more, hmore⟩ := ih (h.perform action) hlater
    exact ⟨more ++ events, htells.trans hmore⟩

/-- The journal of a reachable host tells all that became of it. -/
theorem IsReachable.told (hreach : h.IsReachable) :
    Ledger.empty.replay h.journal.reverse = some h.ledger := by
  obtain ⟨policies, sampler, timers, start, actions, hbuilt, rfl⟩ := hreach
  have hserved : start.served ≤ start.clock := hbuilt.quiet.served le_rfl
  obtain ⟨notes, hnotes, -⟩ := hbuilt.entry.told
  obtain ⟨events, htells⟩ := start.told_performAll actions hserved
  have hall := hnotes.trans htells
  have hjournal : (start.performAll actions).journal = events ++ notes := by
    simpa [empty] using hall.journal
  rw [hjournal]
  exact hall.ledger

/-- A ledger of a host knows who runs a program. -/
theorem running_ledger (h : Host) (user : String) :
    h.ledger.running user = if h.isRunning user then 1 else 0 := by
  rw [Ledger.running, ledger, Table.contains_map, isRunning]

/-- One action reports the end of a run of each user whose run is gone after it, and of nobody
else's. -/
theorem Reported.stopsOf_eq (hg : Reported h g) :
    ∃ events, g.journal = events ++ h.journal ∧
      (∀ event ∈ events, event.isStop = true → ReportsEnd h g event) ∧
      ∀ user, stopsOf user events = if h.isRunning user ∧ ¬g.isRunning user then 1 else 0 := by
  obtain ⟨events, htells, hends, hside⟩ := hg.told
  refine ⟨events, htells.journal, hends, fun user => ?_⟩
  have hcount := Ledger.running_replay htells.ledger user
  rw [running_ledger, running_ledger, startsOf_reverse, stopsOf_reverse] at hcount
  rcases hside with hnone | hnone
  · rw [startsOf_eq_zero hnone] at hcount
    split_ifs at hcount ⊢ <;> simp_all
  · rw [stopsOf_eq_zero hnone] at hcount ⊢
    split_ifs at hcount ⊢ <;> simp_all

/-- The journal of a host in use is complete. Who reads it from the beginning knows exactly the
registered users, the sessions with their owners and addresses and the runs with their programs, and
no line contradicts the lines before it. Every program that was started runs or is told to have
ended, once. What an action reports to have ended was running before it, with what had been counted
by then, and is reported exactly if it is gone after it. -/
theorem journal_complete (hreach : h.IsReachable) :
    Ledger.empty.replay h.journal.reverse = some h.ledger ∧
      (∀ user, startsOf user h.journal =
        stopsOf user h.journal + if h.isRunning user then 1 else 0) ∧
      ∀ action, let g := h.perform action
        ∃ events, g.journal = events ++ h.journal ∧
          (∀ event ∈ events, event.isStop = true → ReportsEnd h g event) ∧
          (∀ user, stopsOf user events = if h.isRunning user ∧ ¬g.isRunning user then 1 else 0) ∧
          ∀ user run later, h.run? user = some run → g.run? user = some later →
            later.scope = run.scope := by
  refine ⟨hreach.told, fun user => ?_, fun action => ?_⟩
  · have hcount := Ledger.running_replay hreach.told user
    rwa [running_ledger, startsOf_reverse, stopsOf_reverse] at hcount
  · have hreported := h.reported_perform action hreach.served_le
    obtain ⟨events, hjournal, hends, hcount⟩ := hreported.stopsOf_eq
    exact ⟨events, hjournal, hends, hcount, hreported.kept⟩

/-- A run that ends with its last session is told of with the rest. -/
theorem journal_complete_of_session :
    ∃ start, IsBuilt {} ⟨⟨100, 0, 2048, 0⟩, none⟩ true start ∧
      let h := start.performAll
        [.registerSession "desk" "ana" "10.0.0.1", .start "ana" "demo", .check "ana" .for]
      Ledger.empty.replay h.journal.reverse = some h.ledger ∧
        h.ledger.runs.find? "ana" = some "demo" ∧ startsOf "ana" h.journal = 1 ∧
        ∃ events, (h.perform (.unregisterSession "desk")).journal = events ++ h.journal ∧
          stopsOf "ana" events = 1 := by
  refine ⟨_, .of_build rfl, ?_⟩
  have hbuilt : IsBuilt {} ⟨⟨100, 0, 2048, 0⟩, none⟩ true _ := .of_build rfl
  have hreach : IsReachable _ := ⟨_, _, _, _,
    [.registerSession "desk" "ana" "10.0.0.1", .start "ana" "demo", .check "ana" .for], hbuilt, rfl⟩
  obtain ⟨htold, -, hactions⟩ := journal_complete hreach
  obtain ⟨events, hjournal, -, hcount, -⟩ := hactions (.unregisterSession "desk")
  exact ⟨htold, rfl, rfl, events, hjournal, hcount "ana"⟩

end Host

end Steward
