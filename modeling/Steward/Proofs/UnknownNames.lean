import Steward.Proofs.CompleteJournal
import Steward.Proofs.FailedAttempts

/-!
# Unknown names

Who names a user, a session or a run that does not exist is answered with a fault, and the journal
warns of the mistake at the exit where the fault came up. Two exits are silent: the check of a run
whose scope was cancelled, and the start of a program in the cancelled scope of a registered user.
-/

namespace Steward

/-- The operation and the name that a warning about an action gives, for the actions that name what
may not exist. -/
def Action.warns? : Action → Option (String × String)
  | .unregisterUser user | .retireUser user => some ("unregister_user", user)
  | .userScope user => some ("user_context", user)
  | .userAllowance user => some ("user_limits", user)
  | .touch user => some ("touch", user)
  | .recordUsage user _ _ => some ("record_usage", user)
  | .checkUsage user => some ("check_resource_usage", user)
  | .acquireWorker user => some ("acquire_worker", user)
  | .start user _ => some ("user_limits", user)
  | .check user _ => some ("check_basic_execution", user)
  | .stop user => some ("stop_basic_execution", user)
  | .unregisterSession session => some ("unregister_session", session)
  | .checkSession session _ => some ("check_session_limits", session)
  | _ => none

namespace Host

/-- Whether an action leaves by a silent exit if it fails for an unknown name: it checks a run in a
cancelled scope, or starts a program for a registered user without a run in a cancelled scope. -/
def ExitsSilently (h : Host) : Action → Prop
  | .check user _ => ∃ run, h.run? user = some run ∧ h.isCancelled run.scope = true
  | .start user _ => ∃ owner, h.users.find? user = some owner ∧ h.run? user = none ∧
      h.isCancelled owner.scope = true
  | _ => False

/-- Whether the events between two hosts include a warning about an unknown name. -/
def Warned (operation key : String) (fault : Fault) (h g : Host) : Prop :=
  ∃ events, g.journal = events ++ h.journal ∧ .unknownResource operation key fault ∈ events

variable {h g : Host} {fault : Fault}

/-! ## Exits that warn -/

/-- What was reported before a warning does not take it back. -/
theorem warned_reportUnknown {α : Type} {operation key : String}
    {outcome : Except Fault α × Host}
    (hfault : faultOf (reportUnknown operation key outcome).1 = some fault)
    (hunknown : fault.isNotFound = true)
    (hbefore : outcome.1 = .error fault → h.journal <:+ outcome.2.journal) :
    Warned operation key fault h (reportUnknown operation key outcome).2 := by
  obtain ⟨other | value, after⟩ := outcome
  · obtain rfl : other = fault := by simpa [reportUnknown] using hfault
    obtain ⟨events, hevents⟩ := hbefore rfl
    refine ⟨.unknownResource operation key other :: events, ?_, List.mem_cons_self⟩
    dsimp only at hevents
    simp only [reportUnknown, hunknown, if_true, emit, List.cons_append, hevents]
  · cases hfault

/-- An operation on a registered user that has no unknown name of its own warns of an unknown
user. -/
theorem warned_withUser {α : Type} {operation key name : String}
    {act : User → Except Fault α × Host}
    (hfault : faultOf (reportUnknown operation key
      (match h.user? name with
        | .ok user => act user
        | .error unknown => (.error unknown, h))).1 = some fault)
    (hunknown : fault.isNotFound = true) (hact : ∀ user, (act user).1 ≠ .error fault) :
    Warned operation key fault h (reportUnknown operation key
      (match h.user? name with
        | .ok user => act user
        | .error unknown => (.error unknown, h))).2 := by
  refine warned_reportUnknown hfault hunknown fun hfailed => ?_
  cases hfound : h.user? name with
  | error unknown => exact List.suffix_rfl
  | ok user =>
    rw [hfound] at hfailed
    exact absurd hfailed (hact user)

/-- Unregistering a user warns of an unknown one. -/
theorem warned_unregisterUser {name : String}
    (hfault : faultOf (h.unregisterUser name).1 = some fault) (hunknown : fault.isNotFound = true) :
    Warned "unregister_user" name fault h (h.unregisterUser name).2 :=
  warned_withUser hfault hunknown fun _ => nofun

/-- An entry before a warning is told before it. -/
theorem Entry.warned {operation key : String} (hentry : Entry h g) {k : Host}
    (hwarned : Warned operation key fault g k) : Warned operation key fault h k := by
  obtain ⟨earlier, htells, -⟩ := hentry.told
  obtain ⟨later, hlater, hmem⟩ := hwarned
  exact ⟨later ++ earlier, by rw [hlater, htells.journal, List.append_assoc],
    List.mem_append_left _ hmem⟩

/-- A failing measurement is nobody's mistake. -/
theorem measure_known {sampler : Sampler} (hfault : sampler.measure = .error fault) :
    fault.isNotFound = false := by
  unfold Sampler.measure at hfault
  split at hfault <;> cases hfault
  rfl

/-- A registration never fails for an unknown name. -/
theorem registerUser_known {name : String} (hfault : (h.registerUser name).1 = .error fault) :
    fault.isNotFound = false := by
  unfold registerUser at hfault
  split_ifs at hfault <;> cases hfault <;> rfl

/-- A registration of a session never fails for an unknown name. -/
theorem registerSession_known {id user address : String}
    (hfault : (h.registerSession id user address).1 = .error fault) :
    fault.isNotFound = false := by
  unfold registerSession at hfault
  cases hfound : h.sessions.find? id with
  | some session =>
    rw [hfound] at hfault
    cases hfault
  | none =>
    rw [hfound] at hfault
    dsimp only at hfault
    split_ifs at hfault
    · cases hfault
      rfl
    · cases hfault
      rfl
    · rcases hresult : h.registerUser user with ⟨refusal | _, same⟩
      · have hknown : refusal.isNotFound = false := registerUser_known (h := h) (by rw [hresult])
        rw [hresult] at hfault
        cases refusal with
        | alreadyRegistered => cases hfault
        | _ =>
          cases hfault
          exact hknown
      · rw [hresult] at hfault
        cases hfault

/-- A message of an unknown session is warned of; nothing else about a message is unknown. -/
theorem warned_checkSession {id : String} {size : Nat}
    (hfault : faultOf (h.checkSession id size).1 = some fault)
    (hunknown : fault.isNotFound = true) :
    Warned "check_session_limits" id fault h (h.checkSession id size).2 := by
  refine warned_reportUnknown hfault hunknown fun hfailed => ?_
  rcases checkSession_fault (faultOf_eq_some.1 hfault) with
    ⟨-, hmissing, -⟩ | ⟨session, -, hrate, -⟩
  · have hcount : h.countMessage id size = (.error (.unknownSession id), h) := by
      simp [countMessage, hmissing]
    rw [hcount]
    exact List.suffix_rfl
  · unfold Session.rateFault? at hrate
    dsimp only at hrate
    split_ifs at hrate
    all_goals
      cases hrate
      cases hunknown

/-! ## Silent exits -/

/-- A check that fails for an unknown name warns of it, or ends a run in a cancelled scope, and
then the end is all that is reported. -/
theorem check_unknown (ho : h.RunsOwned) {user : String} {statement : Statement}
    (hfault : (h.check user statement).1 = .error fault) (hunknown : fault.isNotFound = true) :
    h.run? user = none ∧ Warned "check_basic_execution" user fault h (h.check user statement).2 ∨
      ∃ run, h.run? user = some run ∧ h.isCancelled run.scope = true ∧
        (h.check user statement).2.journal =
          run.stopEvent user .userUnregistered h.clock :: h.journal := by
  cases hfound : h.run? user with
  | none =>
    refine .inl ⟨rfl, ?_⟩
    unfold check at hfault ⊢
    rw [hfound] at hfault ⊢
    exact warned_reportUnknown (faultOf_eq_some.2 hfault) hunknown fun _ => List.suffix_rfl
  | some run =>
    cases halive : h.isCancelled run.scope with
    | true =>
      refine .inr ⟨run, rfl, halive, ?_⟩
      simp [check, hfound, halive, endRun, emit, Run.stopEvent, Run.countsAt, now]
    | false =>
      -- The owner of a run in an open scope is registered, so that no name is unknown.
      obtain ⟨owner, howner, -⟩ := ho.owner hfound halive
      have htouch : ({ h with runs := h.runs.insert user (run.counting statement) }.touch user).1 =
          .ok () := by
        simp [touch, user?, howner, reportUnknown]
      rw [check_of_alive hfound halive] at hfault
      split_ifs at hfault
      · cases hfault
        cases hunknown
      · cases hfault
        cases hunknown
      · cases hfault
        cases hunknown
      · cases htouch.symm.trans hfault

/-- A start that fails for an unknown name warns of its user, or the user is registered and has no
run in a cancelled scope, and then nothing is reported. -/
theorem start_unknown (ho : h.RunsOwned) {user program : String}
    (hfault : (h.start user program).1 = .ok (.error fault)) (hunknown : fault.isNotFound = true) :
    h.users.find? user = none ∧ Warned "user_limits" user fault h (h.start user program).2 ∨
      h.ExitsSilently (.start user program) ∧
        (h.start user program).2.journal = h.journal := by
  cases howner : h.users.find? user with
  | none =>
    refine .inl ⟨rfl, ?_⟩
    have hmissing := user?_eq_error.2 ⟨howner, rfl⟩
    unfold start at hfault ⊢
    rw [hmissing] at hfault ⊢
    dsimp only at hfault ⊢
    refine warned_reportUnknown ?_ hunknown fun _ => List.suffix_rfl
    exact faultOf_eq_some.2 (Except.ok.inj hfault)
  | some owner =>
    refine .inr ?_
    have htouch : (h.touch user).2 =
        { h with users := h.users.insert user { owner with lastActivity := h.stamp } } := by
      simp [touch, user?_eq_ok.2 howner, reportUnknown]
    unfold start at hfault ⊢
    rw [user?_eq_ok.2 howner] at hfault ⊢
    dsimp only at hfault ⊢
    rw [htouch] at hfault ⊢
    have hlater (users : Table User) (length : Span) :
        ({ h with users } : Host).later? length = h.later? length := rfl
    rw [hlater] at hfault ⊢
    cases hdeadline : h.later? owner.allowance.maxExecutionTime with
    | none =>
      rw [hdeadline] at hfault
      cases hfault
    | some deadline =>
      rw [hdeadline] at hfault
      unfold launch at hfault ⊢
      have hsame (users : Table User) : ({ h with users } : Host).run? user = h.run? user := rfl
      dsimp only at hfault ⊢
      rw [hsame] at hfault ⊢
      cases hrun : h.run? user with
      | some run =>
        rw [hrun] at hfault
        cases hfault
        cases hunknown
      | none =>
        rw [hrun] at hfault
        dsimp only at hfault ⊢
        split_ifs at hfault ⊢ with hcancelled
        · refine ⟨⟨owner, howner, hrun, ?_⟩, rfl⟩
          rcases isCancelled_iff.1 hcancelled with hused | ⟨root, id, hscope, hroot⟩
          · exact absurd (ho.scopes _ hused).2 (Nat.lt_irrefl _)
          · cases hscope
            exact isCancelled_iff.2 (.inl hroot)
        · cases hfault

/-- As long as callers leave the scopes to the host, a start has no silent exit. -/
theorem IsOrderly.not_exitsSilently (horderly : h.IsOrderly) (user program : String) :
    ¬h.ExitsSilently (.start user program) := by
  rintro ⟨owner, howner, -, hcancelled⟩
  have hopen := horderly.scopesOpen.userScopes user owner.registration (by
    simp [registration?, howner])
  rcases isCancelled_iff.1 hcancelled with hmem | ⟨_, _, hscope, -⟩
  · exact hopen.2 hmem
  · cases hscope

/-! ## Every exit -/

/-- An action that fails for an unknown name, other than a start and a check of a statement, warns
of it. -/
theorem warned_of_fault? {action : Action} (hfault : h.fault? action = some fault)
    (hunknown : fault.isNotFound = true) (hstart : ∀ user program, action ≠ .start user program)
    (hcheck : ∀ user statement, action ≠ .check user statement) :
    ∃ operation key, action.warns? = some (operation, key) ∧
      Warned operation key fault h (h.perform action) := by
  cases action with
  | registerUser user =>
    rw [registerUser_known (faultOf_eq_some.1 hfault)] at hunknown
    cases hunknown
  | unregisterUser user => exact ⟨_, _, rfl, warned_unregisterUser hfault hunknown⟩
  | retireUser user =>
    have hstopped := h.entry_stopIfRunning user (.inr rfl)
    exact ⟨_, _, rfl, hstopped.warned (warned_unregisterUser hfault hunknown)⟩
  | userScope user =>
    exact ⟨_, _, rfl, warned_reportUnknown hfault hunknown fun _ => List.suffix_rfl⟩
  | userAllowance user =>
    exact ⟨_, _, rfl, warned_reportUnknown hfault hunknown fun _ => List.suffix_rfl⟩
  | touch user => exact ⟨_, _, rfl, warned_withUser hfault hunknown fun _ => nofun⟩
  | recordUsage user cpu memory =>
    exact ⟨_, _, rfl, warned_withUser hfault hunknown fun _ => nofun⟩
  | checkUsage user =>
    refine ⟨_, _, rfl, warned_withUser hfault hunknown fun owner hfailed => ?_⟩
    unfold usageFault? at hfailed
    split_ifs at hfailed
    all_goals
      cases hfailed
      cases hunknown
  | acquireWorker user =>
    refine ⟨_, _, rfl, warned_reportUnknown hfault hunknown fun hfailed => ?_⟩
    cases hfound : h.user? user with
    | error unknown => exact List.suffix_rfl
    | ok owner =>
      rw [hfound] at hfailed
      dsimp only at hfailed
      split_ifs at hfailed
      cases hfailed
      cases hunknown
  | monitorCycle =>
    simp only [fault?, faultOf_eq_some, monitorCycle] at hfault
    cases hsample : h.sampler.measure with
    | error unmeasured =>
      rw [hsample] at hfault
      cases hfault
      rw [measure_known hsample] at hunknown
      cases hunknown
    | ok sample =>
      rw [hsample] at hfault
      cases hfault
  | start user program => exact absurd rfl (hstart user program)
  | check user statement => exact absurd rfl (hcheck user statement)
  | stop user =>
    refine ⟨_, _, rfl, warned_reportUnknown hfault hunknown fun hfailed => ?_⟩
    unfold stopIfRunning at hfailed ⊢
    cases hfound : h.run? user with
    | none => exact List.suffix_rfl
    | some run =>
      rw [hfound] at hfailed
      cases hfailed
  | guardCycle =>
    simp only [fault?, faultOf_eq_some, guardCycle] at hfault
    cases hsample : h.sampler.measure with
    | error unmeasured =>
      rw [hsample] at hfault
      cases hfault
      rw [measure_known hsample] at hunknown
      cases hunknown
    | ok sample =>
      rw [hsample] at hfault
      dsimp only at hfault
      split_ifs at hfault
      split at hfault <;> cases hfault
  | registerSession session user address =>
    rw [registerSession_known (faultOf_eq_some.1 hfault)] at hunknown
    cases hunknown
  | unregisterSession session =>
    exact ⟨_, _, rfl, warned_reportUnknown hfault hunknown fun _ =>
      (h.entry_removeSession session).toChronicle.journal_suffix⟩
  | checkSession session size => exact ⟨_, _, rfl, warned_checkSession hfault hunknown⟩
  | _ => cases hfault

/-- Who names something unknown is warned about in the journal, under the name of the operation and
with the name that was given, unless the action leaves by a silent exit; then no event of that step
asks for attention. As long as callers leave the scopes to the host, the check of a run is the only
such exit, and it is taken when the run is in a cancelled scope. -/
theorem unknown_names_warned (hreach : h.IsReachable) {action : Action}
    (hfault : h.fault? action = some fault) (hunknown : fault.isNotFound = true) :
    ∃ operation key, action.warns? = some (operation, key) ∧
      (¬h.ExitsSilently action ∧ Warned operation key fault h (h.perform action) ∨
        h.ExitsSilently action ∧ ∃ events, (h.perform action).journal = events ++ h.journal ∧
          ∀ event ∈ events, event.level ≠ .warn) ∧
      (h.IsOrderly → h.ExitsSilently action →
        ∃ user statement, action = .check user statement) := by
  have ho := hreach.runsOwned
  by_cases hcheck : ∃ user statement, action = .check user statement
  · obtain ⟨user, statement, rfl⟩ := hcheck
    refine ⟨_, _, rfl, ?_, fun _ _ => ⟨user, statement, rfl⟩⟩
    rcases check_unknown ho (faultOf_eq_some.1 hfault) hunknown with
      ⟨hnone, hwarned⟩ | ⟨run, hrun, hcancelled, hended⟩
    · refine .inl ⟨?_, hwarned⟩
      rintro ⟨run, hrun, -⟩
      rw [hnone] at hrun
      cases hrun
    · refine .inr ⟨⟨run, hrun, hcancelled⟩, [_], hended, ?_⟩
      simp [Run.stopEvent, Event.level, StopReason.isForced]
  by_cases hstart : ∃ user program, action = .start user program
  · obtain ⟨user, program, rfl⟩ := hstart
    refine ⟨_, _, rfl, ?_, fun horderly hsilent =>
      absurd hsilent (horderly.not_exitsSilently user program)⟩
    rcases start_unknown ho (start_of_fault? hfault) hunknown with
      ⟨hmissing, hwarned⟩ | ⟨hsilent, hsame⟩
    · refine .inl ⟨?_, hwarned⟩
      rintro ⟨owner, howner, -⟩
      rw [hmissing] at howner
      cases howner
    · exact .inr ⟨hsilent, [], hsame, by simp⟩
  · have hheard : ¬h.ExitsSilently action := by
      intro hsilent
      cases action with
      | check user statement => exact hcheck ⟨user, statement, rfl⟩
      | start user program => exact hstart ⟨user, program, rfl⟩
      | _ => exact hsilent
    obtain ⟨operation, key, hwarns, hwarned⟩ := warned_of_fault? hfault hunknown
      (fun user program heq => hstart ⟨user, program, heq⟩)
      (fun user statement heq => hcheck ⟨user, statement, heq⟩)
    exact ⟨operation, key, hwarns, .inl ⟨hheard, hwarned⟩, fun _ hsilent => absurd hsilent hheard⟩

/-- A check for a user who never registered is warned of. -/
theorem unknown_names_warned_of_stranger :
    ∃ start, IsBuilt {} ⟨⟨100, 0, 2048, 0⟩, none⟩ true start ∧
      let h := start.performAll [.registerUser "ana"]
      h.fault? (.check "bob" .other) = some (.unknownRun "bob") ∧
        (Fault.unknownRun "bob").isNotFound = true ∧
        ∃ operation key,
          Warned operation key (.unknownRun "bob") h (h.perform (.check "bob" .other)) := by
  refine ⟨_, .of_build rfl, rfl, rfl, ?_⟩
  have hbuilt : IsBuilt {} ⟨⟨100, 0, 2048, 0⟩, none⟩ true _ := .of_build rfl
  obtain ⟨operation, key, -, hexit, -⟩ :=
    @unknown_names_warned _ _ (hbuilt.isReachable [.registerUser "ana"]) (.check "bob" .other) rfl
      rfl
  rcases hexit with ⟨-, hwarned⟩ | ⟨⟨run, hrun, -⟩, -⟩
  · exact ⟨operation, key, hwarned⟩
  · cases hrun

/-- A check of a run whose user was unregistered fails for an unknown name, and nothing in that step
warns of it. -/
theorem unknown_run_may_pass_unwarned :
    ¬∀ h : Host, h.IsReachable → ∀ action fault, h.fault? action = some fault →
      fault.isNotFound = true →
      ∃ events, (h.perform action).journal = events ++ h.journal ∧
        ∃ event ∈ events, event.level = .warn ∧
          event.message = "Governed operation on unknown resource" := by
  intro hwarns
  have hbuilt : IsBuilt {} ⟨⟨100, 0, 2048, 0⟩, none⟩ true _ := .of_build rfl
  have hreach := hbuilt.isReachable
    [.registerUser "ana", .start "ana" "demo", .unregisterUser "ana"]
  obtain ⟨events, hevents, event, hmem, hlevel, -⟩ :=
    hwarns _ hreach (.check "ana" .other) (.unknownRun "ana") rfl rfl
  have hended := List.append_cancel_right
    (show [.programStopped "ana" "demo" .userUnregistered 0 0 0] ++ _ = events ++ _ from hevents)
  rw [← hended, List.mem_singleton] at hmem
  subst hmem
  cases hlevel

end Host

end Steward
