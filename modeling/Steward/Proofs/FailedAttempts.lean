import Steward.Proofs.LiveRuns
import Steward.Proofs.RateWindows

/-!
# Failed attempts

An operation that fails leaves no trace but a report. A failed start may still have been a sign of
life of its user, and a message that passes a rate ceiling one of its session, which moves into the
window of the present before the ceiling is looked at.
-/

namespace Steward

/-- The fault of a result, if it is one. -/
def faultOf {α : Type} : Except Fault α → Option Fault
  | .ok _ => none
  | .error fault => some fault

/-- A result is a fault when that is its fault. -/
@[simp] theorem faultOf_eq_some {α : Type} {result : Except Fault α} {fault : Fault} :
    faultOf result = some fault ↔ result = .error fault := by
  cases result <;> simp [faultOf]

/-- Whether an action is done as a whole or not at all. -/
def Action.isAtomic : Action → Bool
  | .registerUser _ | .unregisterUser _ | .userScope _ | .userAllowance _ | .touch _
  | .recordUsage .. | .checkUsage _ | .acquireWorker _ | .monitorCycle | .stop _ | .guardCycle
  | .registerSession .. => true
  | _ => false

namespace Host

/-- The fault with which an action fails, if it does. A start that stops for want of a clock gives
no result at all. -/
def fault? (h : Host) : Action → Option Fault
  | .registerUser user => faultOf (h.registerUser user).1
  | .unregisterUser user => faultOf (h.unregisterUser user).1
  | .retireUser user => faultOf (h.retireUser user).1
  | .userScope user => faultOf (h.userScope user).1
  | .userAllowance user => faultOf (h.userAllowance user).1
  | .touch user => faultOf (h.touch user).1
  | .recordUsage user cpu memory => faultOf (h.recordUsage user cpu memory).1
  | .checkUsage user => faultOf (h.checkUsage user).1
  | .acquireWorker user => faultOf (h.acquireWorker user).1
  | .monitorCycle => faultOf h.monitorCycle.1
  | .start user program =>
    match (h.start user program).1 with
    | .ok result => faultOf result
    | .error _ => none
  | .check user statement => faultOf (h.check user statement).1
  | .stop user => faultOf (h.stop user).1
  | .guardCycle => faultOf h.guardCycle.1
  | .registerSession session user address => faultOf (h.registerSession session user address).1
  | .unregisterSession session => faultOf (h.unregisterSession session).1
  | .checkSession session size => faultOf (h.checkSession session size).1
  | _ => none

/-- Two hosts that differ in nothing but their journals. -/
def OnlyReports (h g : Host) : Prop := ∃ journal, g = { h with journal }

variable {h g : Host} {fault : Fault}

/-! ## Reports -/

/-- Nothing happened. -/
theorem OnlyReports.refl (h : Host) : OnlyReports h h := ⟨h.journal, rfl⟩

/-- An event only reports. -/
theorem onlyReports_emit (h : Host) (event : Event) : OnlyReports h (h.emit event) :=
  ⟨event :: h.journal, rfl⟩

/-- What is different in the journal alone may be reported on. -/
theorem OnlyReports.emit (hreports : OnlyReports h g) (event : Event) :
    OnlyReports h (g.emit event) := by
  obtain ⟨journal, rfl⟩ := hreports
  exact ⟨event :: journal, rfl⟩

/-- An operation that only reports when it fails still does so when an unknown name is reported on
top of it. -/
theorem onlyReports_reportUnknown {α : Type} {operation key : String}
    {outcome : Except Fault α × Host}
    (hfault : faultOf (reportUnknown operation key outcome).1 = some fault)
    (houtcome : outcome.1 = .error fault → OnlyReports h outcome.2) :
    OnlyReports h (reportUnknown operation key outcome).2 := by
  obtain ⟨_ | other, after⟩ := outcome
  · simp only [reportUnknown] at hfault ⊢
    cases faultOf_eq_some.1 hfault
    split_ifs
    · exact (houtcome rfl).emit _
    · exact houtcome rfl
  · cases hfault

/-- An operation on a registered user that only reports when it fails also does so when the user is
not registered. -/
theorem onlyReports_withUser {α : Type} {operation key name : String}
    {act : User → Except Fault α × Host}
    (hfault : faultOf (reportUnknown operation key
      (match h.user? name with
        | .ok user => act user
        | .error unknown => (.error unknown, h))).1 = some fault)
    (hact : ∀ user, (act user).1 = .error fault → OnlyReports h (act user).2) :
    OnlyReports h (reportUnknown operation key
      (match h.user? name with
        | .ok user => act user
        | .error unknown => (.error unknown, h))).2 := by
  refine onlyReports_reportUnknown hfault fun hfailed => ?_
  cases hfound : h.user? name with
  | error unknown => exact .refl h
  | ok user =>
    rw [hfound] at hfailed
    exact hact user hfailed

/-! ## Operations that are done as a whole or not at all -/

/-- A registration that fails does nothing. -/
theorem registerUser_of_fault {name : String} (hfault : (h.registerUser name).1 = .error fault) :
    (h.registerUser name).2 = h := by
  unfold registerUser at hfault ⊢
  split_ifs at hfault ⊢
  · rfl
  · rfl

/-- A session that is refused only is reported. Its user is not registered: the caps are looked at
first, and a registration that fails does nothing. -/
theorem onlyReports_registerSession {id user address : String}
    (hfault : (h.registerSession id user address).1 = .error fault) :
    OnlyReports h (h.registerSession id user address).2 := by
  unfold registerSession at hfault ⊢
  cases hfound : h.sessions.find? id with
  | some session =>
    rw [hfound] at hfault
    cases hfault
  | none =>
    rw [hfound] at hfault
    dsimp only at hfault ⊢
    split_ifs at hfault ⊢
    · exact onlyReports_emit h _
    · exact onlyReports_emit h _
    · have hnothing (refusal : Fault) (hrefused : (h.registerUser user).1 = .error refusal) :
          (h.registerUser user).2 = h := registerUser_of_fault hrefused
      rcases hresult : h.registerUser user with ⟨refusal | _, same⟩
      · rw [hresult] at hfault hnothing
        obtain rfl : same = h := hnothing refusal rfl
        cases refusal with
        | alreadyRegistered => cases hfault
        | _ => exact onlyReports_emit _ _
      · rw [hresult] at hfault
        cases hfault

/-- An action that is done as a whole or not at all only reports when it fails. -/
theorem onlyReports_of_fault? {action : Action} (hatomic : action.isAtomic = true)
    (hfault : h.fault? action = some fault) : OnlyReports h (h.perform action) := by
  cases action with
  | registerUser user =>
    have hnothing := registerUser_of_fault (faultOf_eq_some.1 hfault)
    exact ⟨h.journal, hnothing⟩
  | unregisterUser user => exact onlyReports_withUser hfault fun _ hfailed => nomatch hfailed
  | userScope user => exact onlyReports_reportUnknown hfault fun _ => .refl h
  | userAllowance user => exact onlyReports_reportUnknown hfault fun _ => .refl h
  | touch user => exact onlyReports_withUser hfault fun _ hfailed => nomatch hfailed
  | recordUsage user cpu memory =>
    exact onlyReports_withUser hfault fun _ hfailed => nomatch hfailed
  | checkUsage user =>
    refine onlyReports_withUser hfault fun owner _ => ?_
    cases usageFault? owner with
    | none => exact .refl h
    | some passed => exact onlyReports_emit h _
  | acquireWorker user =>
    refine onlyReports_reportUnknown hfault fun hfailed => ?_
    cases hfound : h.user? user with
    | error unknown => exact .refl h
    | ok owner =>
      rw [hfound] at hfailed
      dsimp only at hfailed ⊢
      split_ifs at hfailed ⊢
      exact .refl h
  | monitorCycle =>
    simp only [fault?, faultOf_eq_some, monitorCycle, perform] at hfault ⊢
    cases hsample : h.sampler.measure with
    | error unmeasured => exact .refl h
    | ok sample =>
      rw [hsample] at hfault
      cases hfault
  | stop user =>
    refine onlyReports_reportUnknown hfault fun hfailed => ?_
    unfold stopIfRunning at hfailed ⊢
    cases hfound : h.run? user with
    | none => exact .refl h
    | some run =>
      rw [hfound] at hfailed
      cases hfailed
  | guardCycle =>
    simp only [fault?, faultOf_eq_some, guardCycle, perform] at hfault ⊢
    cases hsample : h.sampler.measure with
    | error unmeasured => exact .refl h
    | ok sample =>
      rw [hsample] at hfault
      dsimp only at hfault
      split_ifs at hfault
      split at hfault <;> cases hfault
  | registerSession session user address =>
    exact onlyReports_registerSession (faultOf_eq_some.1 hfault)
  | _ => cases hatomic

/-! ## A start that fails -/

/-- A start that fails names the fault in its result. -/
theorem start_of_fault? {user program : String}
    (hfault : h.fault? (.start user program) = some fault) :
    (h.start user program).1 = .ok (.error fault) := by
  simp only [fault?] at hfault
  cases hresult : (h.start user program).1 with
  | error overflow =>
    rw [hresult] at hfault
    cases hfault
  | ok result =>
    rw [hresult] at hfault
    rw [faultOf_eq_some.1 hfault]

/-- Where scopes are open, a start fails because its user is not registered, and then only reports,
or because a run of the user is recorded; then the user showed a sign of life. -/
theorem ScopesOpen.start_fault {user program : String} (hopen : h.ScopesOpen)
    (hfault : (h.start user program).1 = .ok (.error fault)) :
    fault = .unknownUser user ∧ h.users.find? user = none ∧
        OnlyReports h (h.start user program).2 ∨
      ∃ owner run, h.users.find? user = some owner ∧ h.run? user = some run ∧
        fault = .alreadyRunning user ∧
        OnlyReports
          { h with users := h.users.insert user { owner with lastActivity := h.stamp } }
          (h.start user program).2 := by
  cases howner : h.users.find? user with
  | none =>
    refine .inl ?_
    have hunknown := user?_eq_error.2 ⟨howner, rfl⟩
    unfold start at hfault ⊢
    rw [hunknown] at hfault ⊢
    cases hfault
    exact ⟨rfl, rfl, onlyReports_emit h _⟩
  | some owner =>
    refine .inr ?_
    have hclock : h.later? owner.allowance.maxExecutionTime ≠ none := by
      intro hnone
      rw [start_eq_error_iff.2 ⟨rfl, owner, howner, hnone⟩] at hfault
      cases hfault
    cases hrun : h.run? user with
    | none =>
      obtain ⟨handle, hstarted⟩ := hopen.start_of_idle howner hrun hclock program
      rw [hstarted] at hfault
      cases hfault
    | some run =>
      obtain ⟨deadline, hdeadline⟩ := Option.ne_none_iff_exists'.1 hclock
      rw [start_of_recorded howner hrun hdeadline program] at hfault
      cases hfault
      refine ⟨owner, run, rfl, rfl, rfl, ?_⟩
      have htouch : (h.touch user).2 =
          { h with users := h.users.insert user { owner with lastActivity := h.stamp } } := by
        simp [touch, user?_eq_ok.2 howner, reportUnknown]
      have hlater (users : Table User) (length : Span) :
          ({ h with users } : Host).later? length = h.later? length := rfl
      have hsame (users : Table User) : ({ h with users } : Host).run? user = h.run? user := rfl
      unfold start launch
      rw [user?_eq_ok.2 howner]
      dsimp only
      rw [htouch, hlater, hdeadline]
      dsimp only
      rw [hsame, hrun]
      exact onlyReports_emit _ _

/-! ## A message that is refused -/

/-- A message is refused because its session does not exist, and then that is reported, or because
it would pass a ceiling of the present window; then the session moved into that window and showed a
sign of life. -/
theorem checkSession_fault {id : String} {size : Nat}
    (hfault : (h.checkSession id size).1 = .error fault) :
    fault = .unknownSession id ∧ h.sessions.find? id = none ∧
        OnlyReports h (h.checkSession id size).2 ∨
      ∃ session, h.sessions.find? id = some session ∧
        (session.present h).rateFault? h.policies.session size = some fault ∧
        OnlyReports { h with sessions := h.sessions.insert id (session.present h) }
          (h.checkSession id size).2 := by
  unfold checkSession at hfault ⊢
  cases hfound : h.sessions.find? id with
  | none =>
    refine .inl ?_
    have hcount : h.countMessage id size = (.error (.unknownSession id), h) := by
      simp [countMessage, hfound]
    rw [hcount] at hfault ⊢
    cases hfault
    exact ⟨rfl, rfl, onlyReports_emit h _⟩
  | some session =>
    refine .inr ⟨session, rfl, ?_⟩
    rw [countMessage_of_find? hfound] at hfault ⊢
    cases hrate : (session.present h).rateFault? h.policies.session size with
    | some passed =>
      rw [hrate] at hfault
      have hreports :=
        onlyReports_emit { h with sessions := h.sessions.insert id (session.present h) }
      refine ⟨?_, onlyReports_reportUnknown (faultOf_eq_some.2 hfault) fun _ => ?_⟩
      · cases hfault
        rfl
      · dsimp only
        split_ifs
        · exact hreports _
        · exact .refl _
    | none =>
      -- An accepted message is never refused for want of its owner.
      rw [hrate] at hfault
      dsimp only at hfault
      split at hfault <;> cases hfault

/-! ## Any failure -/

/-- As long as callers leave the scopes to the host, failed operations leave no trace. An operation
that is done as a whole or not at all changes nothing but the journal when it fails. A start fails
for want of a registration, with no change either, or because of a recorded run, which stays as it
is; then only the last sign of life of its user is new. A check of a message fails for want of its
session, with no change, or because of a rate ceiling; then only that session is different: in its
last sign of life and, once its window is over, by a roll into the window of the present, which
counts anew. -/
theorem failures_leave_no_trace (horderly : h.IsOrderly) :
    (∀ action, action.isAtomic = true → ∀ fault, h.fault? action = some fault →
      OnlyReports h (h.perform action)) ∧
    (∀ user program fault, h.fault? (.start user program) = some fault →
      let g := h.perform (.start user program)
      fault = .unknownUser user ∧ h.isRegistered user = false ∧ OnlyReports h g ∨
        ∃ owner run, h.users.find? user = some owner ∧ h.run? user = some run ∧
          fault = .alreadyRunning user ∧ g.run? user = some run ∧
          g.isCancelled run.scope = h.isCancelled run.scope ∧
          OnlyReports
            { h with users := h.users.insert user { owner with lastActivity := h.stamp } } g) ∧
    (∀ id size fault, h.fault? (.checkSession id size) = some fault →
      let g := h.perform (.checkSession id size)
      fault = .unknownSession id ∧ h.hasSession id = false ∧ OnlyReports h g ∨
        ∃ session, h.sessions.find? id = some session ∧
          let window := h.policies.session.window
          let elapsed := h.now.since session.windowStart
          let rolled := session.roll h.now window
          let current := { rolled with lastActivity := h.clock }
          current.rateFault? h.policies.session size = some fault ∧
          OnlyReports { h with sessions := h.sessions.insert id current } g ∧
          (elapsed < window ∧ rolled = session ∨
            window ≤ elapsed ∧ rolled =
              { session with
                windowStart := rolled.windowStart, windowMessages := 0, windowBytes := 0 }) ∧
          current.totalMessages = session.totalMessages ∧
          current.totalBytes = session.totalBytes) := by
  refine ⟨fun action hatomic fault => onlyReports_of_fault? hatomic, ?_, ?_⟩
  · intro user program fault hfault
    rcases horderly.scopesOpen.start_fault (start_of_fault? hfault) with
      ⟨rfl, hunknown, hreports⟩ | ⟨owner, run, howner, hrun, rfl, hreports⟩
    · exact .inl ⟨rfl, Table.contains_eq_false.2 hunknown, hreports⟩
    · refine .inr ⟨owner, run, howner, hrun, rfl, ?_, ?_, hreports⟩
      · obtain ⟨journal, hstarted⟩ := hreports
        simp only [perform, hstarted]
        exact hrun
      · obtain ⟨journal, hstarted⟩ := hreports
        simp only [perform, hstarted]
        rfl
  · intro id size fault hfault
    rcases checkSession_fault (faultOf_eq_some.1 hfault) with
      ⟨rfl, hunknown, hreports⟩ | ⟨session, hfound, hrate, hreports⟩
    · exact .inl ⟨rfl, Table.contains_eq_false.2 hunknown, hreports⟩
    · have hrolled := session.roll_cases h.now h.policies.session.window
      refine .inr ⟨session, hfound, hrate, hreports, hrolled, ?_⟩
      rcases hrolled with ⟨-, hkept⟩ | ⟨-, hkept⟩
      · exact ⟨by rw [hkept], by rw [hkept]⟩
      · exact ⟨by rw [hkept], by rw [hkept]⟩

/-- A user registers a session that no room is left for, starts a second program, and sends a
message that is too long a minute after the last one. -/
theorem failures_leave_no_trace_of_second_start :
    ∃ start, IsBuilt { session := { maxPerUser := 1 } } ⟨⟨100, 0, 2048, 0⟩, none⟩ true start ∧
      let h := start.performAll [.registerSession "desk" "ana" "10.0.0.1", .start "ana" "demo",
        .checkSession "desk" 100, .jump 61000]
      let session : Session :=
        { username := "ana", address := "10.0.0.1", windowStart := ⟨0⟩, windowMessages := 1,
          windowBytes := 100, totalMessages := 1, totalBytes := 100, lastActivity := 0 }
      (∃ fault, h.fault? (.registerSession "phone" "ana" "10.0.0.2") = some fault) ∧
        OnlyReports h (h.perform (.registerSession "phone" "ana" "10.0.0.2")) ∧
        h.fault? (.start "ana" "next") = some (.alreadyRunning "ana") ∧
        (h.perform (.start "ana" "next")).run? "ana" = h.run? "ana" ∧
        h.sessions.find? "desk" = some session ∧
        h.fault? (.checkSession "desk" 20000) =
          some (.limit .bandwidth (.ofNat 20000) (.ofNat 10240)) ∧
        (h.perform (.checkSession "desk" 20000)).sessions.find? "desk" =
          some { session with
            windowStart := .ofSeconds 60, windowMessages := 0, windowBytes := 0,
            lastActivity := 61000 } := by
  refine ⟨_, .of_build rfl, ?_⟩
  intro h session
  have hbuilt : IsBuilt { session := { maxPerUser := 1 } } ⟨⟨100, 0, 2048, 0⟩, none⟩ true _ :=
    .of_build rfl
  have horderly : h.IsOrderly := ⟨_, _, _, _, _, hbuilt, by decide, rfl⟩
  obtain ⟨hatomic, hstart, hcheck⟩ := failures_leave_no_trace horderly
  have hclock : h.clock = 61000 := rfl
  have hwindow : h.policies.session.window = .ofSeconds 60 := rfl
  have hsession : h.sessions.find? "desk" = some session := rfl
  have hrefused : h.fault? (.checkSession "desk" 20000) =
      some (.limit .bandwidth (.ofNat 20000) (.ofNat 10240)) := by decide +kernel
  have hrunning : h.fault? (.start "ana" "next") = some (.alreadyRunning "ana") := by
    decide +kernel
  refine ⟨⟨_, rfl⟩, hatomic _ rfl _ rfl, hrunning, ?_, hsession, hrefused, ?_⟩
  · rcases hstart "ana" "next" _ hrunning with ⟨hfault, -⟩ | ⟨owner, run, -, hrun, -, hstill, -⟩
    · cases hfault
    · exact hstill.trans hrun.symm
  · clear_value h
    rcases hcheck "desk" 20000 _ hrefused with
      ⟨-, hmissing, -⟩ | ⟨found, hfound, -, ⟨journal, hafter⟩, hrolled, -, -⟩
    · rw [hasSession, Table.contains, hsession] at hmissing
      cases hmissing
    · obtain rfl : found = session := Option.some_inj.1 (hfound.symm.trans hsession)
      rw [now, hclock, hwindow] at hrolled
      rcases hrolled with ⟨hwithin, -⟩ | ⟨-, hrolled⟩
      · exact absurd hwithin (by decide)
      · rw [hafter, Table.find?_insert_self, now, hclock, hwindow, hrolled]
        decide

end Host

end Steward
