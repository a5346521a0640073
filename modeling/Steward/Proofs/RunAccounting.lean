import Steward.Proofs.FairShares
import Steward.Proofs.RunOwners

/-!
# Accounting of runs

The counters of a run are the numbers of statements that were reported since it was started, and its
deadline is that of the start. So the verdict on each report depends on its time, its place in the
row of reports and the number of loops and jumps up to it, and on nothing else that happened.
-/

namespace Steward

/-- The statements that a user's programs report in the course of some actions. -/
def reportsOf (user : String) (actions : List Action) : List Statement :=
  actions.filterMap fun action =>
    match action with
    | .check name statement => if name = user then some statement else none
    | _ => none

/-- The number of loops and jumps among some statements. -/
def loopsAmong (statements : List Statement) : Nat := statements.countP Statement.isLoopOrJump

/-- A run after one more statement was counted. -/
def Run.counting (run : Run) (statement : Statement) : Run :=
  { run with
    commands := run.commands + 1
    loops := run.loops + if statement.isLoopOrJump then 1 else 0 }

/-- A run after some statements were counted from its start. -/
def Run.having (first : Run) (statements : List Statement) : Run :=
  { first with commands := statements.length, loops := loopsAmong statements }

/-- One more statement is counted on top of the others. -/
theorem Run.having_append (first : Run) (statements : List Statement) (statement : Statement) :
    first.having (statements ++ [statement]) = (first.having statements).counting statement := by
  simp [having, counting, loopsAmong, List.countP_singleton]

namespace Host

/-! ## One check -/

section Checking

variable {user : String} {run : Run} {h : Host}

/-- A run that is not cancelled is ended by its deadline or by the first ceiling that it passes, and
goes on otherwise. -/
theorem check_of_alive (hfound : h.runs.find? user = some run)
    (halive : h.isCancelled run.scope = false) (statement : Statement) :
    let policy := h.policies.execution
    let counted := run.counting statement
    h.check user statement =
      if run.deadline ≤ h.now then
        (.error (.timeout user run.limit), h.endRun user run .timeout)
      else if policy.maxCommands < counted.commands then
        (.error (.limit .commands (.ofNat counted.commands) (.ofNat policy.maxCommands)),
          h.endRun user { run with commands := counted.commands } .commandLimit)
      else if statement.isLoopOrJump = true ∧ policy.maxLoops < counted.loops then
        (.error (.limit .loops (.ofNat counted.loops) (.ofNat policy.maxLoops)),
          h.endRun user counted .loopLimit)
      else { h with runs := h.runs.insert user counted }.touch user := by
  simp only [check, run?, hfound, halive, countStatement, Run.counting]
  by_cases hkind : statement.isLoopOrJump = true
  · simp [hkind]
  · simp [hkind]

/-- A statement that is no loop and no jump keeps the number of loops. -/
theorem loops_counting_le {bound : Nat} {statement : Statement} (hloops : run.loops ≤ bound)
    (hpassed : ¬(statement.isLoopOrJump = true ∧ bound < (run.counting statement).loops)) :
    (run.counting statement).loops ≤ bound := by
  by_cases hkind : statement.isLoopOrJump = true
  · exact Nat.le_of_not_lt fun hlt => hpassed ⟨hkind, hlt⟩
  · simpa [Run.counting, hkind] using hloops

/-- A check ends the run or counts one statement of it, which passes no ceiling. -/
theorem find?_check (h : Host) (user : String) (statement : Statement) :
    (h.check user statement).2.runs.find? user = none ∨
      ∃ run, h.runs.find? user = some run ∧
        (h.check user statement).2.runs.find? user = some (run.counting statement) ∧
        ¬(statement.isLoopOrJump = true ∧
          h.policies.execution.maxLoops < (run.counting statement).loops) := by
  have hended (run : Run) (reason : StopReason) :
      (h.endRun user run reason).runs.find? user = none := by
    simp [endRun, emit]
  cases hfound : h.runs.find? user with
  | none =>
    have hquiet := quiet_reportUnknown "check_basic_execution" user
      ((Except.error (.unknownRun user) : Except Fault Unit), h)
    refine .inl ?_
    simp only [check, run?, hfound]
    rw [hquiet.runs, hfound]
  | some run =>
    cases halive : h.isCancelled run.scope with
    | true =>
      refine .inl ?_
      simp only [check, run?, hfound, halive, if_true]
      exact hended _ _
    | false =>
      rw [check_of_alive hfound halive]
      split_ifs
      · exact .inl (hended _ _)
      · exact .inl (hended _ _)
      · exact .inl (hended _ _)
      · next hpassed =>
        obtain ⟨users, journal, htouch⟩ :=
          { h with runs := h.runs.insert user (run.counting statement) }.touch_eq user
        rw [htouch]
        exact .inr ⟨run, rfl, Table.find?_insert_self .., hpassed⟩

end Checking

/-! ## The account of a run -/

/-- A host in which a run, if it is still there, has counted some statements. -/
structure Accounts (user : String) (first : Run) (statements : List Statement) (h : Host) :
    Prop where
  issued : first.id < h.nextId
  counts : ∀ run, h.runs.find? user = some run → run.id = first.id →
    run = first.having statements ∧ run.loops ≤ h.policies.execution.maxLoops

section Counting

variable {user : String} {first : Run} {statements : List Statement} {h g : Host}

namespace Accounts

/-- What does not count statements of the user's run leaves the account as it is. -/
theorem changes {may : Effect → Prop} (ha : h.Accounts user first statements)
    (hchanges : Changes may h g) (hcounted : ¬may (.counted user)) :
    g.Accounts user first statements := by
  refine hchanges.preserves (p := Accounts user first statements) ?_ ?_ ha
  · intro a b hquiet hp
    refine ⟨hp.issued.trans_le hquiet.nextId, fun run hfound => ?_⟩
    rw [hquiet.runs] at hfound
    rw [hquiet.policies]
    exact hp.counts run hfound
  · intro effect a b heffect hchange hp
    refine ⟨hp.issued.trans_le hchange.nextId_le, fun run hfound hid => ?_⟩
    have hother : effect ≠ .counted user := fun heq => hcounted (heq ▸ heffect)
    rcases hchange.run_of_find? hfound with ⟨old, hold, -, -, hsame⟩ | ⟨_, -, -, hnew, -, -⟩
    · rw [hsame hother] at hid ⊢
      rw [hchange.sameBuild.policies]
      exact hp.counts old hold hid
    · have hissued := hp.issued
      omega

/-- The run of an account is known by its scope. -/
theorem current (ha : h.Accounts user first statements) {found : Run}
    (hfound : h.runs.find? user = some found) (hscope : found.scope = first.scope) :
    found = first.having statements ∧ found.loops ≤ h.policies.execution.maxLoops := by
  simp only [Run.scope, Scope.child.injEq] at hscope
  exact ha.counts found hfound hscope.2

/-- A check of the user's run puts one more statement on the account. -/
theorem check (ha : h.Accounts user first statements) (statement : Statement) :
    (h.check user statement).2.Accounts user first (statements ++ [statement]) := by
  have hchanges : Changes (fun _ => True) h (h.check user statement).2 :=
    changes_check trivial trivial trivial statement
  refine ⟨ha.issued.trans_le hchanges.nextId_le, fun run hfound hid => ?_⟩
  rcases h.find?_check user statement with hgone | ⟨old, hold, hcounted, hpassed⟩
  · rw [hgone] at hfound
    cases hfound
  · rw [hcounted] at hfound
    cases hfound
    obtain ⟨hbefore, hloops⟩ := ha.counts old hold hid
    rw [hchanges.policies_eq]
    refine ⟨?_, loops_counting_le hloops hpassed⟩
    rw [hbefore, Run.having_append]

/-- Over any history the account of a run lists the statements that were reported. -/
theorem performAll (ha : h.Accounts user first statements) (hserved : h.served ≤ h.clock)
    (actions : List Action) :
    (h.performAll actions).Accounts user first (statements ++ reportsOf user actions) := by
  induction actions generalizing h statements with
  | nil =>
    rw [reportsOf, List.filterMap_nil, List.append_nil]
    exact ha
  | cons action rest ih =>
    have hstep := h.perform_changes action hserved
    have hlater := hstep.served_le hserved
    by_cases hchecks : ∃ statement, action = .check user statement
    · obtain ⟨statement, rfl⟩ := hchecks
      have hrest := ih (ha.check statement) hlater
      have hreports : reportsOf user (.check user statement :: rest) =
          statement :: reportsOf user rest := by
        simp [reportsOf]
      rw [hreports, List.append_cons]
      exact hrest
    · have hother : ¬action.causes (.counted user) := hchecks
      have hrest := ih (ha.changes hstep hother) hlater
      have hreports : reportsOf user (action :: rest) = reportsOf user rest := by
        refine List.filterMap_cons_none ?_
        cases action with
        | check name statement =>
          refine if_neg fun hname => ?_
          rw [hname] at hchecks
          exact hchecks ⟨statement, rfl⟩
        | _ => rfl
      rw [hreports]
      exact hrest

end Accounts

end Counting

/-! ## The start of a run -/

section Starting

variable {user program : String} {run : Run} {handle : Handle} {h : Host}

/-- A run that is launched is recorded under a new identity. -/
theorem launch_eq_ok (hresult : (h.launch user run).1 = .ok handle) :
    handle.scope = run.scope ∧ (h.launch user run).2.runs = h.runs.insert user run ∧
      h.nextId < (h.launch user run).2.nextId := by
  unfold launch run? at hresult ⊢
  cases hidle : h.runs.find? user with
  | some other =>
    rw [hidle] at hresult
    cases hresult
  | none =>
    rw [hidle] at hresult
    dsimp only at hresult ⊢
    split_ifs at hresult ⊢
    cases hresult
    have hwatched := quiet_watchDeadline
      ({ h with nextId := h.nextId + 1, runs := h.runs.insert user run }.emit
        (.programStarted user run.program run.limit.seconds)) user run
    exact ⟨rfl, hwatched.runs, hwatched.nextId⟩

/-- A point that the clock can hold is a length after the present. -/
theorem nanos_of_later? {length later : Span} (hlater : h.later? length = some later) :
    later.nanos = h.now.nanos + length.nanos := by
  unfold later? Span.after? at hlater
  split_ifs at hlater
  cases hlater
  rfl

/-- A program that is started has its deadline after the time that its owner may use, and nothing
counted. -/
theorem start_eq_ok (hstart : (h.start user program).1 = .ok (.ok handle)) :
    ∃ owner run, h.users.find? user = some owner ∧
      (h.start user program).2.runs.find? user = some run ∧ handle.scope = run.scope ∧
      run.registration = owner.registration ∧ run.limit = owner.allowance.maxExecutionTime ∧
      run.deadline.nanos = h.now.nanos + run.limit.nanos ∧ run = run.having [] ∧
      run.id < (h.start user program).2.nextId := by
  unfold start at hstart ⊢
  cases howner : h.user? user with
  | error fault =>
    rw [howner] at hstart
    cases hstart
  | ok owner =>
    rw [howner] at hstart
    obtain ⟨users, journal, htouch⟩ := h.touch_eq user
    dsimp only at hstart ⊢
    rw [htouch] at hstart ⊢
    cases hdeadline : ({ h with users, journal } : Host).later?
        owner.allowance.maxExecutionTime with
    | none =>
      rw [hdeadline] at hstart
      cases hstart
    | some deadline =>
      rw [hdeadline] at hstart
      dsimp only at hstart ⊢
      have hresult := Except.ok.inj hstart
      obtain ⟨hscope, hruns, hnext⟩ := launch_eq_ok hresult
      refine ⟨owner, _, user?_eq_ok.1 howner, ?_, hscope, rfl, rfl, nanos_of_later? hdeadline,
        rfl, hnext⟩
      rw [hruns, Table.find?_insert_self]

/-- A program that was started has an empty account, and the time that the policy allows. -/
theorem accounts_of_start (hreach : h.IsReachable)
    (hstart : (h.start user program).1 = .ok (.ok handle)) :
    ∃ run, handle.scope = run.scope ∧ run.limit = h.policies.system.maxExecutionTime ∧
      run.deadline.nanos = h.now.nanos + h.policies.system.maxExecutionTime.nanos ∧
      (h.start user program).2.Accounts user run [] := by
  obtain ⟨owner, run, howner, hrun, hscope, -, hlimit, hdeadline, hnone, hissued⟩ :=
    start_eq_ok hstart
  have hallowed : run.limit = h.policies.system.maxExecutionTime := by
    rw [hlimit, hreach.sharesFairly.allowance_eq howner]
    rfl
  rw [hallowed] at hdeadline
  refine ⟨run, hscope, hallowed, hdeadline, hissued, fun found hfound _ => ?_⟩
  rw [hrun] at hfound
  cases hfound
  refine ⟨hnone, ?_⟩
  rw [hnone]
  exact Nat.zero_le _

/-- A registered user without a run may start a program in a new scope of the registration, as long
as the clock can hold the deadline. -/
theorem start_of_idle {owner : User} (howner : h.users.find? user = some owner)
    (hidle : h.runs.find? user = none)
    (halive : h.isCancelled (.child owner.registration h.nextId) = false) (program : String) :
    (h.start user program).1 = .error .deadline ∨
      ∃ handle, (h.start user program).1 = .ok (.ok handle) := by
  obtain ⟨users, journal, htouch⟩ := h.touch_eq user
  unfold start
  rw [user?_eq_ok.2 howner]
  dsimp only
  rw [htouch]
  cases ({ h with users, journal } : Host).later? owner.allowance.maxExecutionTime with
  | none => exact .inl rfl
  | some deadline =>
    have hopen (run : Run) (hscope : run.scope = .child owner.registration h.nextId) :
        ∃ handle, (({ h with users, journal } : Host).launch user run).1 = .ok handle := by
      have hfresh : ({ h with users, journal, nextId := h.nextId + 1 } : Host).isCancelled
          run.scope = false := by
        rw [hscope]
        exact halive
      unfold launch run?
      dsimp only
      rw [hidle]
      dsimp only
      rw [if_neg (Bool.eq_false_iff.1 hfresh)]
      exact ⟨_, rfl⟩
    obtain ⟨handle, hhandle⟩ := hopen ⟨h.nextId, owner.registration, program, h.clock, deadline,
      owner.allowance.maxExecutionTime, 0, 0⟩ rfl
    exact .inr ⟨handle, congrArg Except.ok hhandle⟩

/-- A user with a recorded run may not start a program, whether the run goes on or not. -/
theorem start_of_recorded {owner : User} {deadline : Span}
    (howner : h.users.find? user = some owner) (hrecorded : h.runs.find? user = some run)
    (hclock : h.later? owner.allowance.maxExecutionTime = some deadline) (program : String) :
    (h.start user program).1 = .ok (.error (.alreadyRunning user)) := by
  obtain ⟨users, journal, htouch⟩ := h.touch_eq user
  have hsame (length : Span) : ({ h with users, journal } : Host).later? length = h.later? length :=
    rfl
  unfold start
  rw [user?_eq_ok.2 howner]
  dsimp only
  rw [htouch, hsame, hclock]
  simp only [launch, run?, hrecorded]

/-- Only a deadline that the clock cannot hold stops the start of a program. -/
theorem start_eq_error_iff {overflow : Overflow} :
    (h.start user program).1 = .error overflow ↔
      overflow = .deadline ∧ ∃ owner, h.users.find? user = some owner ∧
        h.later? owner.allowance.maxExecutionTime = none := by
  obtain ⟨users, journal, htouch⟩ := h.touch_eq user
  have hsame (length : Span) : ({ h with users, journal } : Host).later? length = h.later? length :=
    rfl
  unfold start
  cases howner : h.users.find? user with
  | none =>
    rw [user?_eq_error.2 ⟨howner, rfl⟩]
    simp
  | some owner =>
    rw [user?_eq_ok.2 howner]
    dsimp only
    rw [htouch, hsame]
    cases hclock : h.later? owner.allowance.maxExecutionTime with
    | none => simp [hclock, eq_comm]
    | some deadline => simp [hclock]

end Starting

/-! ## The end of a run -/

/-- A host in which a run of another host was ended, and nothing else but the journal changed. -/
structure Ends (user : String) (scope : Scope) (h g : Host) : Prop where
  gone : g.runs.find? user = none
  cancelled : g.isCancelled scope = true
  users : g.users = h.users
  roots : ∀ id, .root id ∈ g.cancelled → .root id ∈ h.cancelled

section Ending

variable {user : String} {run counted : Run} {h : Host}

/-- The end of a run ends it, whatever had been counted. -/
theorem ends_endRun (h : Host) (user : String) (hscope : counted.scope = run.scope)
    (reason : StopReason) : Ends user run.scope h (h.endRun user counted reason) where
  gone := by simp [endRun, emit]
  cancelled := by
    refine isCancelled_iff.2 (.inl ?_)
    simp [endRun, emit, hscope]
  users := by simp [endRun, emit]
  roots id hmem := by
    rw [endRun, hscope] at hmem
    rcases mem_cancelled_cancel.1 hmem with heq | hold
    · cases heq
    · exact hold

/-- A registered user can be touched. -/
theorem touch_of_contains {name : String} (hknown : h.users.contains name = true) :
    (h.touch name).1 = .ok () := by
  obtain ⟨user, hfound⟩ := Table.contains_iff.1 hknown
  simp only [touch, user?_eq_ok.2 hfound]
  rfl

/-- What a check of a run answers. -/
theorem check_fst (hfound : h.runs.find? user = some run)
    (halive : h.isCancelled run.scope = false) (hknown : h.users.contains user = true)
    (statement : Statement) :
    let policy := h.policies.execution
    let counted := run.counting statement
    (h.check user statement).1 =
      if run.deadline ≤ h.now then .error (.timeout user run.limit)
      else if policy.maxCommands < counted.commands then
        .error (.limit .commands (.ofNat counted.commands) (.ofNat policy.maxCommands))
      else if statement.isLoopOrJump = true ∧ policy.maxLoops < counted.loops then
        .error (.limit .loops (.ofNat counted.loops) (.ofNat policy.maxLoops))
      else .ok () := by
  dsimp only
  rw [check_of_alive hfound halive]
  split_ifs
  · rfl
  · rfl
  · rfl
  · exact touch_of_contains hknown

/-- A failing check ends the run that it checks. -/
theorem ends_check (hfound : h.runs.find? user = some run)
    (halive : h.isCancelled run.scope = false) (hknown : h.users.contains user = true)
    {statement : Statement} (hfailed : (h.check user statement).1 ≠ .ok ()) :
    Ends user run.scope h (h.check user statement).2 := by
  rw [check_of_alive hfound halive] at hfailed ⊢
  split_ifs at hfailed ⊢
  · exact ends_endRun h user (by rfl) _
  · exact ends_endRun h user (by rfl) _
  · exact ends_endRun h user (by rfl) _
  · exact (hfailed (touch_of_contains hknown)).elim

/-- A check that succeeds leaves the run with one more statement, within its ceilings. -/
theorem find?_check_of_ok (hfound : h.runs.find? user = some run)
    (halive : h.isCancelled run.scope = false)
    (hloops : run.loops ≤ h.policies.execution.maxLoops) {statement : Statement}
    (hpassed : (h.check user statement).1 = .ok ()) :
    (h.check user statement).2.runs.find? user = some (run.counting statement) ∧
      (run.counting statement).commands ≤ h.policies.execution.maxCommands ∧
      (run.counting statement).loops ≤ h.policies.execution.maxLoops := by
  rw [check_of_alive hfound halive] at hpassed ⊢
  split_ifs at hpassed ⊢ with hlate hmany hlooping
  obtain ⟨users, journal, htouch⟩ :=
    { h with runs := h.runs.insert user (run.counting statement) }.touch_eq user
  rw [htouch]
  exact ⟨Table.find?_insert_self .., Nat.le_of_not_lt hmany, loops_counting_le hloops hlooping⟩

/-- After the end of a run there is nothing to check, and its owner may start another program. -/
theorem Ends.idle {g : Host} {owner : User} (hends : Ends user run.scope h g)
    (howner : h.users.find? user = some owner)
    (hregistration : owner.registration = run.registration)
    (halive : h.isCancelled run.scope = false) (ho : g.RunsOwned) :
    (∀ statement, (g.check user statement).1 = .error (.unknownRun user)) ∧
      ∀ program, (g.start user program).1 = .error .deadline ∨
        ∃ handle, (g.start user program).1 = .ok (.ok handle) := by
  constructor
  · intro statement
    simp only [check, run?, hends.gone]
    rfl
  · intro program
    rw [← hends.users] at howner
    refine start_of_idle howner hends.gone ?_ program
    -- Neither the registration nor the new identity was cancelled.
    rw [Bool.eq_false_iff]
    intro hcancelled
    rcases isCancelled_iff.1 hcancelled with hmem | ⟨root, id, hscope, hmem⟩
    · have hbelow := ho.scopes _ hmem
      exact Nat.lt_irrefl _ hbelow.2
    · cases hscope
      refine Bool.eq_false_iff.1 halive (isCancelled_iff.2 (.inr ⟨_, _, rfl, ?_⟩))
      rw [← hregistration]
      exact hends.roots _ hmem

end Ending

/-- A run that was started answers every report by its time, by its place in the row of reports and
by the number of loops and jumps up to it. As long as it goes on, its counters are these numbers and
stay within the ceilings. A failing check ends it and leaves its owner free to start anew. -/
theorem run_accounting_exact {h₀ : Host} (hreach : h₀.IsReachable) (user program : String)
    {handle : Handle} (hstart : (h₀.start user program).1 = .ok (.ok handle))
    (actions : List Action)
    (hcurrent : (((h₀.start user program).2.performAll actions).run? user).map Run.scope =
      some handle.scope)
    (halive : ((h₀.start user program).2.performAll actions).isCancelled handle.scope = false)
    (statement : Statement) :
    let h := (h₀.start user program).2.performAll actions
    let after := (h.check user statement).2
    let policy := h₀.policies.execution
    let limit := h₀.policies.system.maxExecutionTime
    let n := (reportsOf user actions ++ [statement]).length
    let l := loopsAmong (reportsOf user actions ++ [statement])
    ((h.check user statement).1 =
      if h₀.now.nanos + limit.nanos ≤ h.now.nanos then .error (.timeout user limit)
      else if policy.maxCommands < n then
        .error (.limit .commands (.ofNat n) (.ofNat policy.maxCommands))
      else if statement.isLoopOrJump = true ∧ policy.maxLoops < l then
        .error (.limit .loops (.ofNat l) (.ofNat policy.maxLoops))
      else .ok ()) ∧
      ((h.check user statement).1 = .ok () →
        n ≤ policy.maxCommands ∧ l ≤ policy.maxLoops ∧
          ∃ report, after.executionReport user = .running report ∧
            report.commands = n ∧ report.loops = l) ∧
      ((h.check user statement).1 ≠ .ok () →
        after.run? user = none ∧ after.isCancelled handle.scope = true ∧
          after.isRegistered user = true ∧
          (∀ later, (after.check user later).1 = .error (.unknownRun user)) ∧
          ∀ other, (after.start user other).1 = .error .deadline ∨
            ∃ fresh, (after.start user other).1 = .ok (.ok fresh)) := by
  obtain ⟨run, hscope, hlimit, hdeadline, haccount⟩ := accounts_of_start hreach hstart
  have hstarted : IsReachable (h₀.start user program).2 := hreach.performAll [.start user program]
  have hreached := hstarted.performAll actions
  have hpolicies : ((h₀.start user program).2.performAll actions).policies = h₀.policies := by
    have hbegan : Changes (fun _ => True) h₀ (h₀.start user program).2 :=
      changes_start trivial trivial program
    have hwent := (h₀.start user program).2.performAll_changes actions hstarted.served_le
    exact hwent.policies_eq.trans hbegan.policies_eq
  have hcounts := haccount.performAll hstarted.served_le actions
  rw [List.nil_append] at hcounts
  dsimp only
  generalize (h₀.start user program).2.performAll actions = h at *
  obtain ⟨found, hfound, hsame⟩ := Option.map_eq_some_iff.1 hcurrent
  obtain ⟨hhaving, hloops⟩ := hcounts.current hfound (hsame.trans hscope)
  rw [← hsame] at halive ⊢
  obtain ⟨present, hpresent, hregistration⟩ := hreached.runsOwned.owner hfound halive
  have hknown : h.users.contains user = true := Table.contains_iff.2 ⟨present, hpresent⟩
  have hcounted :
      found.counting statement = run.having (reportsOf user actions ++ [statement]) := by
    rw [hhaving, Run.having_append]
  have hlate : found.deadline ≤ h.now ↔
      h₀.now.nanos + h₀.policies.system.maxExecutionTime.nanos ≤ h.now.nanos := by
    rw [← hdeadline, hhaving]
    exact Iff.rfl
  have hbound : found.limit = h₀.policies.system.maxExecutionTime := by
    rw [hhaving, ← hlimit]
    rfl
  refine ⟨?_, fun hpassed => ?_, fun hfailed => ?_⟩
  · have hanswer := check_fst hfound halive hknown statement
    simp only [hcounted, hpolicies, hlate, hbound] at hanswer
    exact hanswer
  · obtain ⟨hafter, hcommands, hlooped⟩ := find?_check_of_ok hfound halive hloops hpassed
    rw [hcounted] at hafter
    rw [hcounted, hpolicies] at hcommands hlooped
    refine ⟨hcommands, hlooped, ?_⟩
    simp only [executionReport, run?, hafter]
    exact ⟨_, rfl, rfl, rfl⟩
  · have hends := ends_check hfound halive hknown hfailed
    have howns := (hreached.performAll [.check user statement]).runsOwned
    obtain ⟨hidle, hrestart⟩ := hends.idle hpresent hregistration halive howns
    refine ⟨hends.gone, hends.cancelled, ?_, hidle, hrestart⟩
    rw [isRegistered, hends.users]
    exact hknown

/-- A run that may count one statement is ended by the second report. -/
theorem run_accounting_of_two_checks :
    ∃ start, IsBuilt { execution := { maxCommands := 1 } } ⟨⟨100, 0, 2048, 0⟩, none⟩ true start ∧
      let h₀ := start.performAll [.registerUser "ana"]
      let h := (h₀.start "ana" "demo").2.performAll
        [.check "ana" .for, .registerUser "bob", .advance 10]
      (h.check "ana" .other).1 = .error (.limit .commands (.ofNat 2) (.ofNat 1)) ∧
        (h.check "ana" .other).2.run? "ana" = none ∧
        (h.check "ana" .other).2.isRegistered "ana" = true := by
  refine ⟨_, .of_build rfl, ?_⟩
  have hbuilt : IsBuilt { execution := { maxCommands := 1 } } ⟨⟨100, 0, 2048, 0⟩, none⟩ true _ :=
    .of_build rfl
  have hreach : IsReachable _ := ⟨_, _, _, _, [.registerUser "ana"], hbuilt, rfl⟩
  obtain ⟨hanswer, -, hfailed⟩ := run_accounting_exact hreach "ana" "demo" rfl
    [.check "ana" .for, .registerUser "bob", .advance 10] rfl rfl .other
  obtain ⟨hgone, -, hknown, -, -⟩ := hfailed (by rw [hanswer]; decide)
  exact ⟨hanswer, hgone, hknown⟩

end Host

end Steward
