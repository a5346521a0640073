import Steward.Proofs.Changes

/-!
# Operations as rows of small changes

What each operation of the three tiers does to a host, split into small changes. An operation needs
only the effects that are named in its lemma.
-/

namespace Steward.Host

variable {may : Effect → Prop} {h : Host}

/-- A user is there when it is found. -/
theorem user?_eq_ok {name : String} {user : User} :
    h.user? name = .ok user ↔ h.users.find? name = some user := by
  unfold user?
  cases h.users.find? name <;> simp

/-- A user is missing when nothing is found. -/
theorem user?_eq_error {name : String} {fault : Fault} :
    h.user? name = .error fault ↔ h.users.find? name = none ∧ fault = .unknownUser name := by
  unfold user?
  cases h.users.find? name <;> simp [eq_comm]

/-- A report about an unknown name adds nothing to what was done. -/
theorem Changes.reportUnknown {α : Type} {operation key : String} {outcome : Except Fault α × Host}
    (hchanges : Changes may h outcome.2) :
    Changes may h (Host.reportUnknown operation key outcome).2 :=
  hchanges.trans (.quiet (quiet_reportUnknown operation key outcome))

/-! ## Users -/

/-- Registration lets a new user in, or does nothing. -/
theorem changes_registerUser {name : String} (hjoined : may (.joined name)) :
    Changes may h (h.registerUser name).2 := by
  unfold registerUser
  split_ifs with hknown hfull
  · exact .refl h
  · exact .refl h
  · have hnew : h.users.find? name = none :=
      Table.contains_eq_false.1 (Bool.eq_false_iff.2 hknown)
    exact (Changes.single hjoined (.joined hnew (Nat.lt_of_not_le hfull))).trans
      (.quiet (quiet_emit _ _))

/-- A registered user is unregistered without a fault. -/
theorem unregisterUser_of_find? {name : String} {user : User}
    (hfound : h.users.find? name = some user) :
    h.unregisterUser name = (.ok (), (h.removeUser name user).emit
      (.userUnregistered name (h.removeUser name user).users.size)) := by
  simp [unregisterUser, user?_eq_ok.2 hfound, reportUnknown]

/-- Unregistration takes a known user out. -/
theorem changes_unregisterUser {name : String} (hleft : may (.left name)) :
    Changes may h (h.unregisterUser name).2 := by
  refine Changes.reportUnknown ?_
  cases hfound : h.user? name with
  | error fault => exact .refl h
  | ok user =>
    exact (Changes.single hleft (.left (user?_eq_ok.1 hfound))).trans (.quiet (quiet_emit _ _))

/-- Asking for a user's scope only may report an unknown name. -/
theorem changes_userScope (name : String) : Changes may h (h.userScope name).2 :=
  Changes.reportUnknown (.refl h)

/-- Asking for a user's allowance only may report an unknown name. -/
theorem changes_userAllowance (name : String) : Changes may h (h.userAllowance name).2 :=
  Changes.reportUnknown (.refl h)

/-- A sign of life changes nothing but the records of users and the journal. -/
theorem touch_eq (h : Host) (name : String) :
    ∃ users journal, (h.touch name).2 = { h with users, journal } := by
  unfold touch
  cases hfound : h.user? name with
  | error fault =>
    obtain ⟨-, rfl⟩ := user?_eq_error.1 hfound
    exact ⟨h.users, _, rfl⟩
  | ok user => exact ⟨_, h.journal, rfl⟩

/-- A sign of life of a known user is noted. -/
theorem changes_touch {name : String} (htouched : may (.touched name)) :
    Changes may h (h.touch name).2 := by
  refine Changes.reportUnknown ?_
  cases hfound : h.user? name with
  | error fault => exact .refl h
  | ok user => exact .single htouched (.touched (user?_eq_ok.1 hfound))

/-- A usage estimate of a known user is kept. -/
theorem changes_recordUsage {name : String} {cpu : Binary64} {memory : Nat}
    (hestimated : may (.estimated name)) : Changes may h (h.recordUsage name cpu memory).2 := by
  refine Changes.reportUnknown ?_
  cases hfound : h.user? name with
  | error fault => exact .refl h
  | ok user => exact .single hestimated (.estimated (user?_eq_ok.1 hfound) cpu memory)

/-- Comparing estimates with an allowance only may report. -/
theorem changes_checkUsage (name : String) : Changes may h (h.checkUsage name).2 := by
  refine Changes.reportUnknown ?_
  cases hfound : h.user? name with
  | error fault => exact .refl h
  | ok user =>
    cases hfault : usageFault? user with
    | none => simpa [hfault] using Changes.refl h
    | some fault => simpa [hfault] using Changes.quiet (h.quiet_emit (.usageOverLimit name fault))

/-- A worker slot is taken, or nothing happens. -/
theorem changes_acquireWorker {name : String} (hhired : may (.hired name)) :
    Changes may h (h.acquireWorker name).2 := by
  refine Changes.reportUnknown ?_
  cases hfound : h.user? name with
  | error fault => exact .refl h
  | ok user =>
    by_cases hroom : user.workers < user.allowance.maxWorkers
    · simpa [hroom] using Changes.single hhired (.hired (user?_eq_ok.1 hfound) hroom)
    · simpa [hroom] using Changes.refl h

/-- A worker slot is given back, if it was held. -/
theorem changes_releaseWorker {permit : Permit} (hreleased : may (.released permit)) :
    Changes may h (h.releaseWorker permit) := by
  by_cases hheld : permit ∈ h.permits
  · exact .single hreleased (.released hheld)
  · have hsame : h.releaseWorker permit = h := by
      simp [releaseWorker, hheld]
    rw [hsame]
    exact .refl h

/-- A monitor cycle surveys the users, unless the measurement fails. -/
theorem changes_monitorCycle (hsurveyed : may .surveyed) : Changes may h h.monitorCycle.2 := by
  unfold monitorCycle
  cases h.sampler.measure with
  | error fault => exact .refl h
  | ok sample =>
    exact (Changes.single hsurveyed (.surveyed sample)).trans
      (.quiet ((quiet_emitAll _ _).trans (quiet_emit _ _)))

/-! ## Runs -/

/-- The end of a run takes it out and cancels its scope, whatever had been counted. -/
theorem changes_endRun {name : String} {run : Run} (hended : may (.ended name))
    (hfound : h.runs.find? name = some run) (counted : Run) (hscope : counted.scope = run.scope)
    (reason : StopReason) : Changes may h (h.endRun name counted reason) := by
  simp only [endRun, hscope]
  exact (Changes.single hended (.ended hfound)).trans (.quiet (quiet_emit _ _))

/-- Ending a run leaves users, sessions and policies alone. -/
theorem stopIfRunning_eq (h : Host) (name : String) (reason : StopReason) :
    (h.stopIfRunning name reason).2.users = h.users ∧
      (h.stopIfRunning name reason).2.sessions = h.sessions ∧
      (h.stopIfRunning name reason).2.policies = h.policies ∧
      (h.stopIfRunning name reason).2.runs = h.runs.erase name := by
  unfold stopIfRunning run?
  cases hfound : h.runs.find? name with
  | none => exact ⟨rfl, rfl, rfl, (Table.erase_of_find?_eq_none hfound).symm⟩
  | some run => simp [endRun, emit]

/-- The run of a user is ended, if there is one. -/
theorem changes_stopIfRunning {name : String} (hended : may (.ended name)) (reason : StopReason) :
    Changes may h (h.stopIfRunning name reason).2 := by
  unfold stopIfRunning run?
  cases hfound : h.runs.find? name with
  | none => exact .refl h
  | some run => exact changes_endRun hended hfound _ rfl reason

/-- The run of a user is ended at its owner's request. -/
theorem changes_stop {name : String} (hended : may (.ended name)) :
    Changes may h (h.stop name).2 := by
  refine Changes.reportUnknown ?_
  have hchanges := changes_stopIfRunning (h := h) hended .requested
  rcases hstop : h.stopIfRunning name .requested with ⟨_ | _, stopped⟩
  · simpa [hstop] using hchanges
  · simpa [hstop] using hchanges

/-- The run of a user is ended and the user taken out. -/
theorem changes_retireUser {name : String} (hended : may (.ended name))
    (hleft : may (.left name)) : Changes may h (h.retireUser name).2 :=
  (changes_stopIfRunning hended _).trans (changes_unregisterUser hleft)

/-- Watching a deadline changes nothing that is governed. -/
theorem quiet_watchDeadline (h : Host) (name : String) (run : Run) :
    Quiet h (h.watchDeadline name run) := by
  unfold watchDeadline
  split
  · exact h.quiet_fresh.trans (quiet_await _ _ _ _)
  · exact h.quiet_emit _

/-- A new run of a known user is recorded, unless the user has one or the scope was cancelled. -/
theorem changes_launch {name : String} {user : User} {run : Run} (hlaunched : may (.launched name))
    (hfound : h.users.find? name = some user) (hid : run.id = h.nextId)
    (hregistration : run.registration = user.registration) (hstart : run.startedAt = h.clock)
    (hcommands : run.commands = 0) (hloops : run.loops = 0)
    (hdeadline : h.later? run.limit = some run.deadline) :
    Changes may h (h.launch name run).2 := by
  unfold launch run?
  cases hidle : h.runs.find? name with
  | some other => exact .quiet (h.quiet_emit _)
  | none =>
    cases halive : h.isCancelled run.scope with
    | true =>
      have hcancelled : Host.isCancelled { h with nextId := h.nextId + 1 } run.scope = true :=
        halive
      simp only [hcancelled, if_true]
      exact .quiet h.quiet_fresh
    | false =>
      have hcancelled : Host.isCancelled { h with nextId := h.nextId + 1 } run.scope = false :=
        halive
      simp only [hcancelled, Bool.false_eq_true, if_false]
      refine (Changes.single hlaunched (.launched hfound hidle hid hregistration hstart hcommands
        hloops hdeadline halive)).trans (.quiet ?_)
      exact (quiet_emit _ _).trans (quiet_watchDeadline _ _ _)

/-- Starting a program touches its owner and may record a run. -/
theorem changes_start {name : String} (htouched : may (.touched name))
    (hlaunched : may (.launched name)) (program : String) :
    Changes may h (h.start name program).2 := by
  unfold start
  cases hfound : h.user? name with
  | error fault => exact Changes.reportUnknown (.refl h)
  | ok owner =>
    have htouch := changes_touch (h := h) htouched
    have howner : (h.touch name).2.users.find? name =
        some { owner with lastActivity := h.stamp } := by
      simp [touch, hfound, Host.reportUnknown]
    dsimp only
    cases hdeadline : (h.touch name).2.later? owner.allowance.maxExecutionTime with
    | none => exact htouch
    | some deadline =>
      let run : Run :=
        { id := (h.touch name).2.nextId, registration := owner.registration, program,
          startedAt := (h.touch name).2.clock, deadline, limit := owner.allowance.maxExecutionTime }
      have hlaunch : Changes may (h.touch name).2 ((h.touch name).2.launch name run).2 :=
        changes_launch hlaunched howner rfl rfl rfl rfl rfl hdeadline
      rcases hresult : (h.touch name).2.launch name run with ⟨result, launched⟩
      rw [hresult] at hlaunch
      simp only [run] at hresult
      simpa only [hresult] using htouch.trans hlaunch

/-- Counting a statement steps the run or ends it. -/
theorem changes_countStatement {name : String} {run : Run} (htouched : may (.touched name))
    (hcounted : may (.counted name)) (hended : may (.ended name))
    (hfound : h.runs.find? name = some run) (halive : h.isCancelled run.scope = false)
    (statement : Statement) : Changes may h (h.countStatement name run statement).2 := by
  have hstep (commands loops : Nat) :=
    Changes.single hcounted (.counted hfound halive commands loops)
  have hend (commands loops : Nat) (reason : StopReason) :
      Changes may h (h.endRun name { run with commands, loops } reason) :=
    changes_endRun hended hfound { run with commands, loops } rfl reason
  simp only [countStatement]
  split_ifs
  · exact hend _ _ _
  · exact (hstep _ _).trans (changes_touch htouched)
  · exact hend _ _ _
  · exact (hstep _ _).trans (changes_touch htouched)

/-- A check steps the run of its user or ends it. -/
theorem changes_check {name : String} (htouched : may (.touched name))
    (hcounted : may (.counted name)) (hended : may (.ended name)) (statement : Statement) :
    Changes may h (h.check name statement).2 := by
  unfold check run?
  cases hfound : h.runs.find? name with
  | none => exact Changes.reportUnknown (.refl h)
  | some run =>
    dsimp only
    split_ifs with hcancelled
    · exact changes_endRun hended hfound _ rfl _
    · exact changes_endRun hended hfound _ rfl _
    · exact changes_countStatement htouched hcounted hended hfound
        (Bool.eq_false_iff.2 hcancelled) statement

/-- What is picked item by item is one of the items, or what was picked before them. -/
theorem mem_of_foldl_pick {α : Type} {pick : Option α → α → Option α}
    (hpick : ∀ best item, pick best item = some item ∨ pick best item = best) {items : List α}
    {best : Option α} {item : α} (hfold : items.foldl pick best = some item) :
    item ∈ items ∨ best = some item := by
  induction items generalizing best with
  | nil => exact .inr hfold
  | cons head rest ih =>
    rcases ih hfold with hrest | hhead
    · exact .inl (List.mem_cons_of_mem _ hrest)
    · rcases hpick best head with htaken | hleft
      · rw [htaken] at hhead
        cases hhead
        exact .inl List.mem_cons_self
      · exact .inr (hleft ▸ hhead)

/-- The oldest run is one of the runs. -/
theorem find?_of_oldestRun? {name : String} {run : Run} (hold : h.oldestRun? = some (name, run)) :
    h.runs.find? name = some run := by
  unfold oldestRun? at hold
  have hmem := mem_of_foldl_pick ?_ hold
  · rcases hmem with hentry | hnone
    · exact Table.mem_entries_iff.1 hentry
    · cases hnone
  · intro oldest entry
    cases oldest with
    | none => exact .inl rfl
    | some found =>
      dsimp only
      split_ifs
      · exact .inl rfl
      · exact .inr rfl

/-! ## Sessions -/

/-- Registration does not touch the sessions. -/
@[simp] theorem sessions_registerUser (h : Host) (name : String) :
    (h.registerUser name).2.sessions = h.sessions := by
  unfold registerUser
  split_ifs <;> rfl

/-- A session of a new name is recorded. -/
theorem changes_openSession {id : String} (hopened : may (.opened id))
    (hnew : h.sessions.find? id = none) (user address : String) (first : Bool) :
    Changes may h (h.openSession id user address first) := by
  refine (Changes.single hopened (.opened hnew user address)).trans ?_
  cases first with
  | true => exact .quiet (quiet_emit _ _)
  | false => exact .quiet ((quiet_emit _ _).trans (quiet_emit _ _))

/-- A known session is refreshed. -/
theorem changes_refreshSession {id : String} {session : Session} (hrefreshed : may (.refreshed id))
    (hfound : h.sessions.find? id = some session) (user : String) :
    Changes may h (h.refreshSession id user session) :=
  (Changes.single hrefreshed (.refreshed hfound _)).trans (.quiet (quiet_emit _ _))

/-- Registering a session refreshes a known one, or lets its user in and records it. -/
theorem changes_registerSession {id user : String} (hrefreshed : may (.refreshed id))
    (hjoined : may (.joined user)) (hopened : may (.opened id)) (address : String) :
    Changes may h (h.registerSession id user address).2 := by
  unfold registerSession
  cases hfound : h.sessions.find? id with
  | some session => exact changes_refreshSession hrefreshed hfound user
  | none =>
    dsimp only
    split_ifs
    · exact .quiet (h.quiet_emit _)
    · exact .quiet (h.quiet_emit _)
    · have hjoin := changes_registerUser (h := h) hjoined
      have hnew : (h.registerUser user).2.sessions.find? id = none := by
        rwa [sessions_registerUser]
      rcases hregister : h.registerUser user with ⟨result, joined⟩
      rw [hregister] at hjoin hnew
      split
      · next heq =>
        cases heq
        exact hjoin.trans (changes_openSession hopened hnew user address true)
      · next heq =>
        cases heq
        exact hjoin.trans (changes_openSession hopened hnew user address false)
      · next heq =>
        cases heq
        exact hjoin.trans (.quiet (quiet_emit _ _))

/-- Removing a session ends its owner's run and may take the owner out. -/
theorem changes_removeSession {id : String} (hclosed : may (.closed id))
    (hended : ∀ name, may (.ended name)) (hleft : ∀ name, may (.left name)) :
    Changes may h (h.removeSession id).2 := by
  unfold removeSession
  cases hfound : h.sessions.find? id with
  | none => exact .refl h
  | some session =>
    have hremoved := (Changes.single hclosed (.closed hfound)).trans
      (changes_stopIfRunning (hended session.username) .requested)
    dsimp only
    split_ifs
    · exact (hremoved.trans (changes_retireUser (hended _) (hleft _))).trans
        (.quiet (quiet_emit _ _))
    · exact hremoved.trans (.quiet (quiet_emit _ _))

/-- Unregistering a session removes it. -/
theorem changes_unregisterSession {id : String} (hclosed : may (.closed id))
    (hended : ∀ name, may (.ended name)) (hleft : ∀ name, may (.left name)) :
    Changes may h (h.unregisterSession id).2 :=
  Changes.reportUnknown (changes_removeSession hclosed hended hleft)

section Rolling

variable (s : Session) (now window : Span) (size : Nat)

@[simp] theorem username_roll : (s.roll now window).username = s.username := by
  simp only [Session.roll]; split_ifs <;> rfl

@[simp] theorem address_roll : (s.roll now window).address = s.address := by
  simp only [Session.roll]; split_ifs <;> rfl

@[simp] theorem connections_roll : (s.roll now window).connections = s.connections := by
  simp only [Session.roll]; split_ifs <;> rfl

@[simp] theorem username_count : (s.count size).username = s.username := rfl

@[simp] theorem address_count : (s.count size).address = s.address := rfl

@[simp] theorem connections_count : (s.count size).connections = s.connections := rfl

@[simp] theorem lastActivity_count : (s.count size).lastActivity = s.lastActivity := rfl

end Rolling

/-- Checking a message of a session rolls and counts it. -/
theorem changes_countMessage {id : String} (hchecked : may (.checked id)) (size : Nat) :
    Changes may h (h.countMessage id size).2 := by
  unfold countMessage
  cases hfound : h.sessions.find? id with
  | none => exact .refl h
  | some session =>
    have hupdate {current : Session} (husername : current.username = session.username)
        (haddress : current.address = session.address)
        (hconnections : current.connections = session.connections)
        (hactivity : current.lastActivity = h.clock) :
        Changes may h { h with sessions := h.sessions.insert id current } :=
      .single hchecked (.checked hfound husername haddress hconnections hactivity)
    dsimp only
    split
    · exact hupdate (by simp) (by simp) (by simp) rfl
    · exact hupdate (by simp) (by simp) (by simp) (by simp)

/-- A message that is counted is its session's owner's. -/
theorem owner_of_countMessage {id user : String} {size : Nat} {counted : Host}
    (hcount : h.countMessage id size = (.ok user, counted)) :
    ∃ session, h.sessions.find? id = some session ∧ session.username = user := by
  unfold countMessage at hcount
  cases hfound : h.sessions.find? id with
  | none => simp [hfound] at hcount
  | some session =>
    refine ⟨session, rfl, ?_⟩
    rw [hfound] at hcount
    dsimp only at hcount
    split at hcount
    · cases hcount
    · simp only [Prod.mk.injEq, Except.ok.injEq] at hcount
      rw [← hcount.1]
      exact (username_roll session _ _).symm

/-- A check of a message rolls and counts it, and touches the session's owner. -/
theorem changes_checkSession {id : String} (hchecked : may (.checked id))
    (htouched : ∀ session, h.sessions.find? id = some session → may (.touched session.username))
    (size : Nat) : Changes may h (h.checkSession id size).2 := by
  refine Changes.reportUnknown ?_
  have hcount := changes_countMessage (h := h) hchecked size
  rcases hcheck : h.countMessage id size with ⟨fault | user, counted⟩ <;> rw [hcheck] at hcount
  · dsimp only at hcount ⊢
    split_ifs
    · exact hcount.trans (.quiet (quiet_emit _ _))
    · exact hcount
  · obtain ⟨session, hfound, rfl⟩ := owner_of_countMessage hcheck
    have htouch := hcount.trans (changes_touch (h := counted) (htouched session hfound))
    dsimp only
    rcases hsign : counted.touch session.username with ⟨fault | value, touched⟩ <;>
      rw [hsign] at htouch
    · exact htouch.trans (.quiet (quiet_emit _ _))
    · exact htouch

end Steward.Host
