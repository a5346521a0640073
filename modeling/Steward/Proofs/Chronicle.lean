import Steward.Proofs.Journal
import Steward.Proofs.RunAccounting

/-!
# What is reported

Everything that happens to a host is told by the events that it reports. An entry of an operation
tells what became of users, sessions and runs and has no task wait for the clock; a chronicle also
covers what waiting tasks do. Both say of every report of the end of a run which run it was, when it
ended and what it had counted.
-/

namespace Steward

namespace Event

/-- Whether an event tells that a program was started. -/
def isStart : Event → Bool
  | .programStarted .. => true
  | _ => false

/-- Whether an event tells that a program ended. -/
def isStop : Event → Bool
  | .programStopped .. => true
  | _ => false

/-- A note tells neither of a start nor of an end. -/
theorem of_isNote {event : Event} (hnote : event.isNote = true) :
    event.isStart = false ∧ event.isStop = false := by
  cases event <;> first | exact ⟨rfl, rfl⟩ | cases hnote

end Event

namespace Run

/-- The counters of a run when it ends. A statement that passes a ceiling is counted before it ends
the run, as a loop only after the ceiling of all statements. -/
def countsAt (run : Run) : StopReason → Nat × Nat
  | .commandLimit => (run.commands + 1, run.loops)
  | .loopLimit => (run.commands + 1, run.loops + 1)
  | _ => (run.commands, run.loops)

/-- A run with the counters that it has when it ends. -/
def stoppedBy (run : Run) (reason : StopReason) : Run :=
  { run with commands := (run.countsAt reason).1, loops := (run.countsAt reason).2 }

/-- The report that a run of a user ended at a time in milliseconds. -/
def stopEvent (run : Run) (user : String) (reason : StopReason) (time : Nat) : Event :=
  .programStopped user run.program reason
    ((Span.ofMillis time).since (.ofMillis run.startedAt)).millis
    (run.countsAt reason).1 (run.countsAt reason).2

end Run

namespace Host

/-- What a reader of the journal ought to know. -/
def ledger (h : Host) : Ledger where
  users := h.roster
  sessions := h.owners
  runs := h.runs.map Run.program

/-- Some events, newest first, tell what happened between two hosts. -/
structure Tells (events : List Event) (h g : Host) : Prop where
  journal : g.journal = events ++ h.journal
  ledger : h.ledger.replay events.reverse = some g.ledger

/-- Whether a run of a user may be ended for its deadline at a time in milliseconds: the deadline
has passed, or a task that watches it is due. -/
def IsOverdue (h : Host) (user : String) (run : Run) (time : Nat) : Prop :=
  run.deadline ≤ .ofMillis time ∨
    ∃ task ∈ h.tasks, ∃ scope, task.work = .watchDeadline user run.id scope ∧ task.dueMillis ≤ time

/-- Whether an event reports the end of a run of one host on the way to another. -/
def ReportsEnd (h g : Host) (event : Event) : Prop :=
  ∃ user run reason time, h.runs.find? user = some run ∧ h.clock ≤ time ∧ time ≤ g.clock ∧
    event = run.stopEvent user reason time ∧ (reason = .timeout → h.IsOverdue user run time)

/-- One host came out of another without starts, and the events tell how. -/
structure Chronicle (h g : Host) : Prop where
  runs : ∀ user run, g.runs.find? user = some run → h.runs.find? user = some run
  watches : ∀ task ∈ g.tasks, task.isTracked = false → task ∈ h.tasks
  clock : h.clock ≤ g.clock
  told : ∃ events, Tells events h g ∧
    ∀ event ∈ events, event.isStart = false ∧ (event.isStop = true → ReportsEnd h g event)

/-- One host came out of another without starts and without a look at the tasks. -/
structure Entry (h g : Host) : Prop extends Chronicle h g where
  tasks : g.tasks = h.tasks

variable {h g k : Host}

/-! ## Telling in a row -/

/-- What is told in a row. -/
theorem Tells.trans {earlier later : List Event} (hg : Tells earlier h g) (hk : Tells later g k) :
    Tells (later ++ earlier) h k where
  journal := by rw [hk.journal, hg.journal, List.append_assoc]
  ledger := by
    rw [List.reverse_append, Ledger.replay_append, hg.ledger, Option.bind_some, hk.ledger]

/-- Notes tell that nothing came or went. -/
theorem Tells.of_notes {events : List Event} (hjournal : g.journal = events ++ h.journal)
    (hledger : g.ledger = h.ledger) (hnotes : ∀ event ∈ events, event.isNote = true) :
    Tells events h g where
  journal := hjournal
  ledger := by
    rw [hledger]
    exact h.ledger.replay_notes fun event hmem => hnotes event (List.mem_reverse.1 hmem)

/-- One event tells what happened. -/
theorem Tells.of_event {event : Event} (hjournal : g.journal = event :: h.journal)
    (hledger : h.ledger.tell event = some g.ledger) : Tells [event] h g where
  journal := hjournal
  ledger := by
    rw [List.reverse_singleton, Ledger.replay, hledger]
    rfl

/-- A reported end is one on the way to every later host. -/
theorem ReportsEnd.later {event : Event} (hends : ReportsEnd h g event) (hle : g.clock ≤ k.clock) :
    ReportsEnd h k event := by
  obtain ⟨user, run, reason, time, hfound, hfrom, hto, hevent, hoverdue⟩ := hends
  exact ⟨user, run, reason, time, hfound, hfrom, hto.trans hle, hevent, hoverdue⟩

namespace Chronicle

/-- A reported end is one on the way from every earlier host. -/
theorem reportsEnd {event : Event} (hg : Chronicle h g) (hends : ReportsEnd g k event) :
    ReportsEnd h k event := by
  obtain ⟨user, run, reason, time, hfound, hfrom, hto, hevent, hoverdue⟩ := hends
  refine ⟨user, run, reason, time, hg.runs user run hfound, hg.clock.trans hfrom, hto, hevent, ?_⟩
  intro htimeout
  rcases hoverdue htimeout with hpassed | ⟨task, hmem, scope, hwork, hdue⟩
  · exact .inl hpassed
  · have huntracked : task.isTracked = false := by simp [Task.isTracked, hwork]
    exact .inr ⟨task, hg.watches task hmem huntracked, scope, hwork, hdue⟩

/-- One chronicle after another. -/
protected theorem trans (hg : Chronicle h g) (hk : Chronicle g k) : Chronicle h k where
  runs user run hfound := hg.runs user run (hk.runs user run hfound)
  watches task hmem huntracked := hg.watches task (hk.watches task hmem huntracked) huntracked
  clock := hg.clock.trans hk.clock
  told := by
    obtain ⟨earlier, hearlier, hbefore⟩ := hg.told
    obtain ⟨later, hlater, hafter⟩ := hk.told
    refine ⟨later ++ earlier, hearlier.trans hlater, fun event hmem => ?_⟩
    rcases List.mem_append.1 hmem with hmem | hmem
    · obtain ⟨hstart, hstop⟩ := hafter event hmem
      exact ⟨hstart, fun hends => hg.reportsEnd (hstop hends)⟩
    · obtain ⟨hstart, hstop⟩ := hbefore event hmem
      exact ⟨hstart, fun hends => (hstop hends).later hk.clock⟩

/-- A chronicle adds to the journal. -/
theorem journal_suffix (hg : Chronicle h g) : h.journal <:+ g.journal := by
  obtain ⟨events, htells, -⟩ := hg.told
  exact ⟨events, htells.journal.symm⟩

end Chronicle

/-- Calm changes are told by remarks. -/
theorem Calm.chronicle (hcalm : Calm h g) : Chronicle h g where
  runs user run hfound := by rwa [← hcalm.runs]
  watches := hcalm.watches
  clock := hcalm.clock.ge
  told := by
    obtain ⟨events, hjournal, hremarks⟩ := hcalm.remarks
    have hnotes := fun event hmem => Event.isNote_of_isRemark (hremarks event hmem)
    have hledger : g.ledger = h.ledger := by
      simp [Host.ledger, roster, hcalm.enrolled_eq, owners, hcalm.sessions, hcalm.runs]
    refine ⟨events, .of_notes hjournal hledger hnotes, fun event hmem => ?_⟩
    obtain ⟨hstart, hstop⟩ := Event.of_isNote (hnotes event hmem)
    refine ⟨hstart, fun hends => ?_⟩
    rw [hstop] at hends
    cases hends

namespace Entry

/-- Nothing happened. -/
protected theorem refl (h : Host) : Entry h h where
  toChronicle := (Calm.refl h).chronicle
  tasks := rfl

/-- One entry after another. -/
protected theorem trans (hg : Entry h g) (hk : Entry g k) : Entry h k where
  toChronicle := hg.toChronicle.trans hk.toChronicle
  tasks := hk.tasks.trans hg.tasks

/-- What one event tells is an entry, if it is no start, and no end of a run but one that is due. -/
theorem of_event (event : Event) (hjournal : g.journal = event :: h.journal)
    (hledger : h.ledger.tell event = some g.ledger) (htasks : g.tasks = h.tasks)
    (hclock : g.clock = h.clock)
    (hruns : ∀ user run, g.runs.find? user = some run → h.runs.find? user = some run)
    (hstart : event.isStart = false) (hstop : event.isStop = true → ReportsEnd h g event) :
    Entry h g where
  runs := hruns
  watches _ hmem _ := by rwa [← htasks]
  clock := hclock.ge
  told := by
    refine ⟨[event], .of_event hjournal hledger, fun other hmem => ?_⟩
    rw [List.mem_singleton.1 hmem]
    exact ⟨hstart, hstop⟩
  tasks := htasks

/-- A note is an entry. -/
theorem note (h : Host) {event : Event} (hnote : event.isNote = true) :
    Entry h (h.emit event) := by
  obtain ⟨hstart, hstop⟩ := Event.of_isNote hnote
  exact .of_event event rfl (h.ledger.tell_note hnote) rfl rfl (fun _ _ hfound => hfound) hstart
    (by simp [hstop])

/-- Notes are an entry. -/
theorem notes (h : Host) {events : List Event} (hnotes : ∀ event ∈ events, event.isNote = true) :
    Entry h (h.emitAll events) := by
  induction events generalizing h with
  | nil => exact .refl h
  | cons event rest ih =>
    have hfirst := Entry.note h (hnotes event List.mem_cons_self)
    exact hfirst.trans (ih _ fun other hmem => hnotes other (List.mem_cons_of_mem _ hmem))

/-- Calm changes that leave the tasks alone are an entry. -/
theorem of_calm (hcalm : Calm h g) (htasks : g.tasks = h.tasks) : Entry h g where
  toChronicle := hcalm.chronicle
  tasks := htasks

/-- What comes and goes unsaid is neither user nor session nor run. -/
theorem of_same (hroster : g.roster = h.roster) (howners : g.owners = h.owners)
    (hruns : g.runs = h.runs) (hjournal : g.journal = h.journal) (htasks : g.tasks = h.tasks)
    (hclock : g.clock = h.clock) : Entry h g where
  runs user run hfound := by rwa [← hruns]
  watches _ hmem _ := by rwa [← htasks]
  clock := hclock.ge
  told := by
    have hledger : g.ledger = h.ledger := by
      simp [Host.ledger, hroster, howners, hruns]
    exact ⟨[], .of_notes hjournal hledger (by simp), by simp⟩
  tasks := htasks

/-- A report about an unknown name is a note. -/
theorem reportUnknown {α : Type} {operation key : String} {outcome : Except Fault α × Host}
    (hentry : Entry h outcome.2) : Entry h (Host.reportUnknown operation key outcome).2 := by
  obtain ⟨fault | value, after⟩ := outcome
  · simp only [Host.reportUnknown]
    split_ifs
    · exact hentry.trans (note _ rfl)
    · exact hentry
  · exact hentry

end Entry

/-- Events leave the tasks alone. -/
theorem tasks_emitAll (h : Host) (events : List Event) : (h.emitAll events).tasks = h.tasks := by
  induction events generalizing h with
  | nil => rfl
  | cons event rest ih => exact ih (h.emit event)

/-! ## Users -/

/-- Replacing the record of a user keeps the roster. -/
theorem roster_insert {name : String} {old : User} (hfound : h.users.find? name = some old)
    (new : User) : (h.users.insert name new).map (fun _ => ()) = h.roster := by
  rw [Table.map_insert, roster_eq]
  exact Table.insert_of_find? (by simp [hfound])

/-- A new user is told of. -/
theorem entry_registerUser (h : Host) (name : String) : Entry h (h.registerUser name).2 := by
  unfold registerUser
  split_ifs with hknown hfull
  · exact .refl h
  · exact .refl h
  · have hroster : h.roster.find? name = none := by
      rw [← Table.contains_eq_false, contains_roster]
      exact Bool.eq_false_iff.2 hknown
    have htold : h.ledger.tell (.userRegistered name (h.welcome name).users.size) =
        some (h.welcome name).ledger := by
      rw [Ledger.tell_userRegistered, ledger, Table.add?_of_find? hroster, ← roster_welcome]
      rfl
    exact .of_event (.userRegistered name (h.welcome name).users.size) rfl htold rfl rfl
      (fun _ _ hfound => hfound) rfl (by simp [Event.isStop])

/-- A departure is told of. -/
theorem entry_unregisterUser (h : Host) (name : String) : Entry h (h.unregisterUser name).2 := by
  refine Entry.reportUnknown ?_
  cases hfound : h.user? name with
  | error fault => exact .refl h
  | ok user =>
    have hroster : h.roster.find? name = some () := by
      simp [roster_eq, user?_eq_ok.1 hfound]
    have htold : h.ledger.tell (.userUnregistered name (h.removeUser name user).users.size) =
        some (h.removeUser name user).ledger := by
      rw [Ledger.tell_userUnregistered, ledger, Table.strike?_of_find? hroster,
        ← roster_removeUser h name user]
      simp [ledger, owners, removeUser, reshare]
    refine .of_event (.userUnregistered name (h.removeUser name user).users.size) ?_ htold
      ?_ ?_ ?_ rfl (by simp [Event.isStop])
    · simp [emit, removeUser, reshare]
    · simp [emit, removeUser, reshare]
    · simp [emit, removeUser, reshare]
    · intro other run hrun
      simpa [emit, removeUser, reshare] using hrun

/-- A record of a user may be replaced unsaid. -/
theorem entry_insertUser {name : String} {old : User} (hfound : h.users.find? name = some old)
    (new : User) : Entry h { h with users := h.users.insert name new } :=
  .of_same (by rw [roster_eq]; exact roster_insert hfound new) rfl rfl rfl rfl rfl

/-- Asking for a user's scope adds no entry. -/
theorem entry_userScope (h : Host) (name : String) : Entry h (h.userScope name).2 :=
  Entry.reportUnknown (.refl h)

/-- Asking for a user's allowance adds no entry. -/
theorem entry_userAllowance (h : Host) (name : String) : Entry h (h.userAllowance name).2 :=
  Entry.reportUnknown (.refl h)

/-- A sign of life is not told of. -/
theorem entry_touch (h : Host) (name : String) : Entry h (h.touch name).2 := by
  refine Entry.reportUnknown ?_
  cases hfound : h.user? name with
  | error fault => exact .refl h
  | ok user => exact entry_insertUser (user?_eq_ok.1 hfound) _

/-- An estimate is not told of. -/
theorem entry_recordUsage (h : Host) (name : String) (cpu : Binary64) (memory : Nat) :
    Entry h (h.recordUsage name cpu memory).2 := by
  refine Entry.reportUnknown ?_
  cases hfound : h.user? name with
  | error fault => exact .refl h
  | ok user => exact entry_insertUser (user?_eq_ok.1 hfound) _

/-- Estimates over an allowance are only noted. -/
theorem entry_checkUsage (h : Host) (name : String) : Entry h (h.checkUsage name).2 := by
  refine Entry.reportUnknown ?_
  cases hfound : h.user? name with
  | error fault => exact .refl h
  | ok user =>
    cases hfault : usageFault? user with
    | none => simpa [hfault] using Entry.refl h
    | some fault =>
      have hnote : (Event.usageOverLimit name fault).isNote = true := rfl
      simpa [hfault] using Entry.note h hnote

/-- A worker slot that is taken is not told of. -/
theorem entry_acquireWorker (h : Host) (name : String) : Entry h (h.acquireWorker name).2 := by
  refine Entry.reportUnknown ?_
  cases hfound : h.user? name with
  | error fault => exact .refl h
  | ok user =>
    dsimp only
    split_ifs
    · exact (entry_insertUser (user?_eq_ok.1 hfound) _).trans (.of_same rfl rfl rfl rfl rfl rfl)
    · exact .refl h

/-- A worker slot that is given back is not told of. -/
theorem entry_releaseWorker (h : Host) (permit : Permit) : Entry h (h.releaseWorker permit) := by
  refine .of_same ?_ ?_ ?_ ?_ ?_ ?_
  · rw [roster, enrolled_releaseWorker, roster]
  all_goals unfold releaseWorker; split <;> rfl

/-- A monitor cycle only adds notes. -/
theorem entry_monitorCycle (h : Host) : Entry h h.monitorCycle.2 := by
  unfold monitorCycle
  cases h.sampler.measure with
  | error fault => exact .refl h
  | ok sample =>
    have hspread : Entry h
        { h.spreadUsage sample with inactive := h.idleUsers, lastSample := some sample } := by
      refine .of_same ?_ rfl rfl rfl rfl rfl
      simp only [roster_eq, spreadUsage, Table.map_map]
    refine (hspread.trans (.notes _ fun event hmem => ?_)).trans (.note _ rfl)
    obtain ⟨name, -, rfl⟩ := List.mem_map.1 hmem
    rfl

/-! ## Runs -/

/-- The end of a run is told of, with what the run had counted. -/
theorem entry_endRun {name : String} {run : Run} (hfound : h.runs.find? name = some run)
    (reason : StopReason) (hoverdue : reason = .timeout → h.IsOverdue name run h.clock) :
    Entry h (h.endRun name (run.stoppedBy reason) reason) := by
  have hcurrent : (h.runs.map Run.program).find? name = some run.program := by simp [hfound]
  have hevent : h.endRun name (run.stoppedBy reason) reason =
      ({ h with runs := h.runs.erase name }.cancel run.scope).emit
        (run.stopEvent name reason h.clock) := rfl
  rw [hevent]
  refine .of_event (run.stopEvent name reason h.clock) ?_ ?_ ?_ ?_ ?_ rfl fun _ => ?_
  · simp [emit]
  · rw [Run.stopEvent, Ledger.tell_programStopped, ledger, Table.strike?_of_find? hcurrent,
      ← Table.map_erase]
    simp [ledger, roster_eq, owners, emit]
  · simp [emit]
  · simp [emit]
  · intro other twin htwin
    simp only [emit, runs_cancel, Table.find?_erase] at htwin
    split_ifs at htwin
    exact htwin
  · exact ⟨name, run, reason, h.clock, hfound, le_rfl, by simp [emit], rfl, hoverdue⟩

/-- A run that is stopped, if there is one, is told of. -/
theorem entry_stopIfRunning (h : Host) (name : String) {reason : StopReason}
    (hasked : reason = .requested ∨ reason = .userUnregistered) :
    Entry h (h.stopIfRunning name reason).2 := by
  unfold stopIfRunning run?
  cases hfound : h.runs.find? name with
  | none => exact .refl h
  | some run =>
    rcases hasked with rfl | rfl
    · exact entry_endRun hfound .requested nofun
    · exact entry_endRun hfound .userUnregistered (by simp)

/-- A run that is stopped at its owner's request is told of. -/
theorem entry_stop (h : Host) (name : String) : Entry h (h.stop name).2 := by
  refine Entry.reportUnknown ?_
  have hstopped := h.entry_stopIfRunning name (.inl rfl)
  rcases hstop : h.stopIfRunning name .requested with ⟨_ | _, stopped⟩ <;>
    simpa [hstop] using hstopped

/-- The end of a run and the departure of its owner are told of. -/
theorem entry_retireUser (h : Host) (name : String) : Entry h (h.retireUser name).2 :=
  (h.entry_stopIfRunning name (.inr rfl)).trans (entry_unregisterUser _ name)

/-- A run that a check ends is told of; a statement that is counted is not. -/
theorem check_cases (h : Host) (user : String) (statement : Statement) :
    Entry h (h.check user statement).2 ∨
      ∃ run, h.runs.find? user = some run ∧ h.isCancelled run.scope = false ∧
        (h.check user statement).2 =
          ({ h with runs := h.runs.insert user (run.counting statement) }.touch user).2 := by
  cases hfound : h.runs.find? user with
  | none =>
    refine .inl ?_
    simp only [check, run?, hfound]
    exact Entry.reportUnknown (.refl h)
  | some run =>
    cases halive : h.isCancelled run.scope with
    | true =>
      refine .inl ?_
      simp only [check, run?, hfound, halive, if_true]
      exact entry_endRun hfound .userUnregistered (by simp)
    | false =>
      rw [check_of_alive hfound halive]
      split_ifs with hlate hmany hlooping
      · exact .inl (entry_endRun hfound .timeout fun _ => .inl hlate)
      · exact .inl (entry_endRun hfound .commandLimit (by simp))
      · have hcounted : run.counting statement = run.stoppedBy .loopLimit := by
          simp [Run.counting, Run.stoppedBy, Run.countsAt, hlooping.1]
        rw [hcounted]
        exact .inl (entry_endRun hfound .loopLimit (by simp))
      · exact .inr ⟨run, rfl, halive, rfl⟩

/-! ## Sessions -/

/-- A record of a session may be replaced unsaid. -/
theorem entry_insertSession {id : String} {old new : Session}
    (hfound : h.sessions.find? id = some old) (husername : new.username = old.username)
    (haddress : new.address = old.address) :
    Entry h { h with sessions := h.sessions.insert id new } :=
  .of_same rfl (owners_insert hfound husername haddress) rfl rfl rfl rfl

/-- A new session is told of. -/
theorem entry_openSession {id : String} (hnew : h.sessions.find? id = none)
    (user address : String) (first : Bool) : Entry h (h.openSession id user address first) := by
  have howners : h.owners.find? id = none := by simp [owners, hnew]
  have htold (count : Nat) : h.ledger.tell (.sessionRegistered id user address count) =
      some (h.openSession id user address first).ledger := by
    rw [Ledger.tell_sessionRegistered, ledger, Table.add?_of_find? howners,
      ← owners_openSession h id user address first]
    cases first <;> rfl
  cases first with
  | true =>
    exact .of_event _ rfl (htold _) rfl rfl (fun _ _ hfound => hfound) rfl
      (by simp [Event.isStop])
  | false =>
    have hnote : (Event.userKnown user).isNote = true := rfl
    exact (Entry.note h hnote).trans (.of_event _ rfl (htold _) rfl rfl
      (fun _ _ hfound => hfound) rfl (by simp [Event.isStop]))

/-- A session that is refreshed is only noted. -/
theorem entry_refreshSession {id : String} {session : Session}
    (hfound : h.sessions.find? id = some session) (user : String) :
    Entry h (h.refreshSession id user session) := by
  let connections := min (session.connections + 1) halfWordMax
  have hreplaced : Entry h { h with
      sessions := h.sessions.insert id { session with connections, lastActivity := h.clock } } :=
    entry_insertSession hfound rfl rfl
  exact hreplaced.trans (.note _ rfl)

/-- A session that is registered is told of, and so is its user. -/
theorem entry_registerSession (h : Host) (id user address : String) :
    Entry h (h.registerSession id user address).2 := by
  unfold registerSession
  cases hfound : h.sessions.find? id with
  | some session => exact entry_refreshSession hfound user
  | none =>
    dsimp only
    split_ifs
    · exact .note h rfl
    · exact .note h rfl
    · have hjoin := h.entry_registerUser user
      have hnew : (h.registerUser user).2.sessions.find? id = none := by
        rwa [sessions_registerUser]
      rcases hregister : h.registerUser user with ⟨result, joined⟩
      rw [hregister] at hjoin hnew
      split
      · next heq =>
        cases heq
        exact hjoin.trans (entry_openSession hnew user address true)
      · next heq =>
        cases heq
        exact hjoin.trans (entry_openSession hnew user address false)
      · next heq =>
        cases heq
        exact hjoin.trans (.note _ rfl)

/-- The end of a run does not look at the sessions. -/
theorem stopIfRunning_sessions (h : Host) (sessions : Table Session) (name : String)
    (reason : StopReason) :
    ({ h with sessions } : Host).stopIfRunning name reason =
      ((h.stopIfRunning name reason).1,
        { (h.stopIfRunning name reason).2 with sessions }) := by
  unfold stopIfRunning run?
  cases hfound : h.runs.find? name with
  | none => rfl
  | some run =>
    simp only [endRun, cancel, emit]
    split_ifs <;> rfl

/-- The departure of a user does not look at the sessions. -/
theorem retireUser_sessions (h : Host) (sessions : Table Session) (name : String) :
    ({ h with sessions } : Host).retireUser name =
      ((h.retireUser name).1, { (h.retireUser name).2 with sessions }) := by
  unfold retireUser
  rw [stopIfRunning_sessions]
  generalize (h.stopIfRunning name .userUnregistered).2 = idle
  unfold unregisterUser user?
  cases idle.users.find? name with
  | none => rfl
  | some user =>
    simp only [removeUser, cancel, emit, Host.reportUnknown]
    split_ifs <;> rfl

/-- The departure of a user leaves the sessions. -/
theorem sessions_retireUser (h : Host) (name : String) :
    (h.retireUser name).2.sessions = h.sessions := by
  have hsame := h.retireUser_sessions h.sessions name
  exact congrArg (fun outcome => outcome.2.sessions) hsame

/-- A session that is closed is told of. -/
theorem entry_closeSession {sessions : Table Session} (hsessions : h.sessions = sessions)
    {id : String} {session : Session} (hfound : sessions.find? id = some session)
    (stopped last : Bool) :
    Entry h ({ h with sessions := sessions.erase id }.emit
      (.sessionUnregistered id session.username stopped last)) := by
  subst hsessions
  have howners : h.owners.find? id = some (session.username, session.address) := by
    simp [owners, hfound]
  refine .of_event (.sessionUnregistered id session.username stopped last) rfl ?_ rfl rfl
    (fun _ _ hfound => hfound) rfl (by simp [Event.isStop])
  rw [Ledger.tell_sessionUnregistered, ledger, Table.strike?_of_find? howners, owners,
    ← Table.map_erase]
  rfl

/-- A session that is removed is told of, after the end of its owner's run and, with the last
session, the owner's departure. -/
theorem entry_removeSession (h : Host) (id : String) : Entry h (h.removeSession id).2 := by
  unfold removeSession
  cases hfound : h.sessions.find? id with
  | none => exact .refl h
  | some session =>
    have hstopped := h.entry_stopIfRunning session.username (.inl rfl)
    have hkept := (h.stopIfRunning_eq session.username .requested).2.1
    dsimp only
    rw [stopIfRunning_sessions]
    rcases hstop : h.stopIfRunning session.username .requested with ⟨stopped, idle⟩
    rw [hstop] at hstopped hkept
    dsimp only at hstopped hkept ⊢
    split_ifs with hlast
    · have hretired := idle.entry_retireUser session.username
      have hleft := idle.sessions_retireUser session.username
      rw [retireUser_sessions]
      exact (hstopped.trans hretired).trans
        (entry_closeSession (hleft.trans hkept) hfound stopped _)
    · exact hstopped.trans (entry_closeSession hkept hfound stopped _)

/-- A session that is unregistered is told of. -/
theorem entry_unregisterSession (h : Host) (id : String) : Entry h (h.unregisterSession id).2 :=
  Entry.reportUnknown (h.entry_removeSession id)

/-- A message that is checked is not told of. -/
theorem entry_checkSession (h : Host) (id : String) (size : Nat) :
    Entry h (h.checkSession id size).2 := by
  refine Entry.reportUnknown ?_
  have hcount : Entry h (h.countMessage id size).2 := by
    unfold countMessage
    cases hfound : h.sessions.find? id with
    | none => exact .refl h
    | some session =>
      dsimp only
      split
      · exact entry_insertSession hfound (by simp) (by simp)
      · exact entry_insertSession hfound (by simp) (by simp)
  rcases hcheck : h.countMessage id size with ⟨fault | user, counted⟩ <;> rw [hcheck] at hcount
  · dsimp only at hcount ⊢
    split_ifs
    · exact hcount.trans (.note _ rfl)
    · exact hcount
  · have htouch := hcount.trans (counted.entry_touch user)
    dsimp only
    rcases hsign : counted.touch user with ⟨fault | value, touched⟩ <;> rw [hsign] at htouch
    · exact htouch.trans (.note _ rfl)
    · exact htouch

/-! ## Scopes -/

/-- A scope that is cancelled is not told of. -/
theorem entry_cancel (h : Host) (scope : Scope) : Entry h (h.cancel scope) :=
  .of_same (by simp [roster_eq]) (by simp [owners]) (by simp) (by simp) (by simp) (by simp)

/-- A scope that is opened under the background scope is not told of. -/
theorem entry_childScope (h : Host) : Entry h h.childScope.2 := by
  refine .of_calm h.calm_openScope ?_
  simp only [childScope, openScope]
  split <;> rfl

/-- A scope that is closed under the background scope is not told of. -/
theorem entry_closeScope (h : Host) (id : Nat) : Entry h (h.closeScope id) := by
  refine .of_calm (h.calm_closeScope id) ?_
  unfold closeScope
  split <;> rfl

/-- A scope that is let go of is not told of. -/
theorem entry_releaseScope (h : Host) (scope : Scope) : Entry h (h.releaseScope scope) := by
  unfold releaseScope
  split
  · exact h.entry_closeScope _
  · exact .refl h

/-! ## Tasks -/

/-- The end of a run does not look at the tasks. -/
theorem endRun_dropTask (h : Host) (id : Nat) (name : String) (run : Run) (reason : StopReason) :
    (h.dropTask id).endRun name run reason = (h.endRun name run reason).dropTask id := by
  cases hseen : h.cancelled.contains run.scope <;>
    simp only [endRun, cancel, emit, dropTask, now, hseen, if_true, Bool.false_eq_true, if_false]

/-- What the cycles of patrols do is told. -/
theorem cycling_entry : Cycling Entry where
  refl := Entry.refl
  trans hg hk := hg.trans hk
  noted h _ hremark := .note h (Event.isNote_of_isRemark hremark)
  evicted hfound := entry_endRun hfound .memoryPressure nofun
  surveyed := entry_monitorCycle
  removed := entry_removeSession

/-- What a single task does is told. -/
theorem firing_chronicle : Firing Chronicle where
  refl h := (Entry.refl h).toChronicle
  trans hg hk := hg.trans hk
  noted h _ hremark := (h.calm_emit hremark).chronicle
  evicted hfound := (cycling_entry.evicted hfound).toChronicle
  surveyed h := h.entry_monitorCycle.toChronicle
  removed h id := (h.entry_removeSession id).toChronicle
  calm hcalm := hcalm.chronicle
  watched {h task} hmem hdue huntracked := by
    obtain ⟨user, id, scope, hwork, ⟨run, hfound, rfl, -, hfire⟩ | ⟨-, hfire⟩⟩ :=
      fire_cases (h := h) huntracked
    -- The end of the run and the departure of its task are told apart, so their order is swapped.
    · have hoverdue : h.IsOverdue user run h.clock := .inr ⟨task, hmem, scope, hwork, hdue⟩
      have hended := (entry_endRun hfound .timeout fun _ => hoverdue).toChronicle
      rw [hfire, endRun_dropTask]
      exact hended.trans (calm_dropTask _ _).chronicle
    · rw [hfire]
      exact (h.calm_dropTask task.id).chronicle

/-- The clock is not told of. -/
theorem chronicle_ticked {clock : Nat} (hle : h.clock ≤ clock) : Chronicle h { h with clock } where
  runs _ _ hfound := hfound
  watches _ hmem _ := hmem
  clock := hle
  told := ⟨[], .of_notes rfl rfl (by simp), by simp⟩

/-- What happens while time passes is told. -/
theorem timing_chronicle : Timing Chronicle := firing_chronicle.timing chronicle_ticked

/-! ## Starts -/

/-- A run is recorded and watched, or no run comes about. -/
theorem launch_cases (h : Host) (user : String) (run : Run) :
    Entry h (h.launch user run).2 ∨
      h.runs.find? user = none ∧ h.isCancelled run.scope = false ∧
        (h.launch user run).2 =
          ({ h with runs := h.runs.insert user run, nextId := h.nextId + 1 }.emit
            (.programStarted user run.program run.limit.seconds)).watchDeadline user run := by
  unfold launch run?
  cases hidle : h.runs.find? user with
  | some other => exact .inl (.note h rfl)
  | none =>
    dsimp only
    split_ifs with hcancelled
    · exact .inl (.of_same rfl rfl rfl rfl rfl rfl)
    · refine .inr ⟨rfl, ?_, rfl⟩
      rw [← Bool.not_eq_true]
      exact hcancelled

/-- A program that is started for a user who is known and has none, at the sign of life that this
is, becomes the user's run under a new identity and is watched. Otherwise no run comes about. -/
theorem start_cases (h : Host) (user program : String) :
    Entry h (h.start user program).2 ∨
      ∃ owner run, h.users.find? user = some owner ∧ h.runs.find? user = none ∧
        run.id = h.nextId ∧ h.isCancelled run.scope = false ∧
        (h.start user program).2 =
          ({ h with
            users := h.users.insert user { owner with lastActivity := h.stamp }
            runs := h.runs.insert user run
            nextId := h.nextId + 1 }.emit
              (.programStarted user run.program run.limit.seconds)).watchDeadline user run := by
  unfold start
  cases hfound : h.user? user with
  | error fault => exact .inl (Entry.reportUnknown (.refl h))
  | ok owner =>
    have howner := user?_eq_ok.1 hfound
    have htouch : (h.touch user).2 =
        { h with users := h.users.insert user { owner with lastActivity := h.stamp } } := by
      simp [touch, hfound, Host.reportUnknown]
    have htouched := h.entry_touch user
    dsimp only
    rw [htouch] at htouched ⊢
    have hlater (users : Table User) (length : Span) :
        ({ h with users } : Host).later? length = h.later? length := rfl
    rw [hlater]
    cases h.later? owner.allowance.maxExecutionTime with
    | none => exact .inl htouched
    | some deadline =>
      let run : Run :=
        { id := h.nextId, registration := owner.registration, program, startedAt := h.clock,
          deadline, limit := owner.allowance.maxExecutionTime }
      let touched := { h with users := h.users.insert user { owner with lastActivity := h.stamp } }
      rcases touched.launch_cases user run with hnone | ⟨hidle, halive, hlaunched⟩
      · exact .inl (htouched.trans hnone)
      · exact .inr ⟨owner, run, howner, hidle, rfl, halive, hlaunched⟩

end Host

end Steward
