import Steward.Proofs.WaitingTasks

/-!
# Histories

Every action is a row of small changes, and only of those effects that it can cause. So whatever the
empty host has and small changes keep holds in every state of every history.
-/

namespace Steward

namespace Action

/-- Whether an action can do the work of patrols. -/
def patrols : Action → Bool
  | .monitorCycle | .guardCycle | .sweep => true
  | action => action.runsTasks

/-- The effects that an action can have. -/
def causes (action : Action) : Effect → Prop
  | .joined user =>
    action = .registerUser user ∨ ∃ session address, action = .registerSession session user address
  | .left user =>
    action = .unregisterUser user ∨ action = .retireUser user ∨
      (∃ session, action = .unregisterSession session) ∨ action.patrols
  | .touched user =>
    action = .touch user ∨ (∃ program, action = .start user program) ∨
      (∃ statement, action = .check user statement) ∨
      ∃ session size, action = .checkSession session size
  | .estimated user => ∃ cpu memory, action = .recordUsage user cpu memory
  | .surveyed => action.patrols
  | .hired user => action = .acquireWorker user
  | .released permit => action = .releaseWorker permit
  | .launched user => ∃ program, action = .start user program
  | .counted user => ∃ statement, action = .check user statement
  | .ended user =>
    (∃ statement, action = .check user statement) ∨ action = .stop user ∨
      action = .stopIfRunning user ∨ action = .retireUser user ∨
      (∃ session, action = .unregisterSession session) ∨ action.patrols
  | .opened session => ∃ user address, action = .registerSession session user address
  | .refreshed session => ∃ user address, action = .registerSession session user address
  | .checked session => ∃ size, action = .checkSession session size
  | .closed session => action = .unregisterSession session ∨ action.patrols
  | .cancelled scope =>
    action = .cancelScope scope ∨ scope = .background ∧ ∃ millis, action = .shutdown millis
  | .ticked => (∃ millis, action = .jump millis) ∨ action.runsTasks

end Action

namespace Host

/-- What patrols do is caused by the actions that do it. -/
theorem firing_causes {action : Action} (hpatrols : action.patrols = true) :
    Firing (Changes action.causes) :=
  firing_changes (by simp [Action.causes, hpatrols]) hpatrols (by simp [Action.causes, hpatrols])
    (by simp [Action.causes, hpatrols])

/-- What lets tasks run can do the work of patrols. -/
theorem patrols_of_runsTasks {action : Action} (htasks : action.runsTasks = true) :
    action.patrols = true := by
  cases action <;> first | rfl | exact htasks

/-- What time brings is caused by the actions that let tasks run. -/
theorem timing_causes {action : Action} (htasks : action.runsTasks = true) :
    Timing (Changes action.causes) :=
  timing_changes (firing_causes (patrols_of_runsTasks htasks)) (Or.inr htasks)

/-- An action changes a host by its own effects only. -/
theorem perform_changes (h : Host) (action : Action) (hserved : h.served ≤ h.clock) :
    Changes action.causes h (h.perform action) := by
  cases action with
  | registerUser user => exact changes_registerUser (.inl rfl)
  | unregisterUser user => exact changes_unregisterUser (.inl rfl)
  | retireUser user => exact changes_retireUser (by simp [Action.causes]) (.inr (.inl rfl))
  | userScope user => exact changes_userScope user
  | userAllowance user => exact changes_userAllowance user
  | touch user => exact changes_touch (.inl rfl)
  | recordUsage user cpu memory => exact changes_recordUsage ⟨cpu, memory, rfl⟩
  | checkUsage user => exact changes_checkUsage user
  | acquireWorker user => exact changes_acquireWorker rfl
  | releaseWorker permit => exact changes_releaseWorker rfl
  | setSampler sampler => exact .quiet (h.quiet_sampler sampler)
  | monitorCycle => exact changes_monitorCycle rfl
  | start user program =>
    exact changes_start (.inr (.inl ⟨program, rfl⟩)) ⟨program, rfl⟩ program
  | check user statement =>
    exact changes_check (.inr (.inr (.inl ⟨statement, rfl⟩))) ⟨statement, rfl⟩
      (.inl ⟨statement, rfl⟩) statement
  | stop user => exact changes_stop (.inr (.inl rfl))
  | stopIfRunning user => exact changes_stopIfRunning (.inr (.inr (.inl rfl))) _
  | guardCycle => exact (firing_causes rfl).guardCycle h
  | registerSession session user address =>
    exact changes_registerSession ⟨user, address, rfl⟩ (.inr ⟨session, address, rfl⟩)
      ⟨user, address, rfl⟩ address
  | unregisterSession session =>
    exact changes_unregisterSession (.inl rfl) (by simp [Action.causes])
      (by simp [Action.causes])
  | checkSession session size =>
    exact changes_checkSession ⟨size, rfl⟩ (by simp [Action.causes]) size
  | sweep => exact (firing_causes rfl).sweep h
  | cancelScope scope =>
    simp only [perform]
    split_ifs with hissued
    · exact .single (by simp [Action.causes]) (.cancelled (.inl hissued))
    · exact .refl h
  | childScope => exact .quiet h.quiet_openScope
  | releaseScope scope => exact .quiet (h.quiet_releaseScope scope)
  | spawnPatrols => exact (firing_causes rfl).spawnPatrols (timing_causes rfl) h
  | spawnSleeper millis cancellable =>
    exact (firing_causes rfl).spawnSleeper (timing_causes rfl) h millis cancellable
  | shutdown millis =>
    refine (timing_causes rfl).shutdown (fun g => ?_) h millis hserved
    exact .single (by simp [Action.causes]) (.cancelled (.inr rfl))
  | jump millis => exact .single (by simp [Action.causes]) (.ticked (Nat.le_add_right _ _))
  | advance millis => exact (timing_causes rfl).advance h millis
  | sleep millis => exact (timing_causes rfl).sleep h millis
  | reportStatus => exact .quiet (h.quiet_emit _)

/-- Actions in a row are done one row after the other. -/
theorem performAll_append (h : Host) (actions more : List Action) :
    h.performAll (actions ++ more) = (h.performAll actions).performAll more := by
  induction actions generalizing h with
  | nil => rfl
  | cons action rest ih => exact ih (h.perform action)

/-- What is done to a host is a row of small changes of the effects that the actions can have. -/
theorem performAll_changes_of {may : Effect → Prop} (h : Host) {actions : List Action}
    (hmay : ∀ action ∈ actions, ∀ effect, action.causes effect → may effect)
    (hserved : h.served ≤ h.clock) : Changes may h (h.performAll actions) := by
  induction actions generalizing h with
  | nil => exact .refl h
  | cons action rest ih =>
    have hstep := h.perform_changes action hserved
    have hfirst := hstep.mono fun effect => hmay action List.mem_cons_self effect
    have hrest := ih _ (fun other hother => hmay other (List.mem_cons_of_mem _ hother))
      (hstep.served_le hserved)
    exact hfirst.trans hrest

/-- What is done to a host is a row of small changes. -/
theorem performAll_changes (h : Host) (actions : List Action) (hserved : h.served ≤ h.clock) :
    Changes (fun _ => True) h (h.performAll actions) :=
  h.performAll_changes_of (fun _ _ _ _ => trivial) hserved

/-- One event after several others. -/
theorem emit_emitAll (h : Host) (events : List Event) (event : Event) :
    (h.emitAll events).emit event = h.emitAll (events ++ [event]) := by
  rw [emitAll, emitAll, List.foldl_append, List.foldl_cons, List.foldl_nil]

section Building

variable {policies : Policies} {sampler : Sampler} {timers : Bool} {clockEnd : Span} {h : Host}

/-- A host that was built from policies is empty but for remarks in its journal. -/
theorem emitAll_of_build (hbuilt : build policies sampler timers clockEnd = .ok h) :
    ∃ events, h = (empty policies sampler timers clockEnd).emitAll events ∧
      ∀ event ∈ events, event.isRemark = true := by
  simp only [build] at hbuilt
  split at hbuilt
  · cases hbuilt
  · cases hbuilt
    split_ifs
    · exact ⟨[_, _], rfl, by simp [Event.isRemark, Event.isNote, Event.isSurvey]⟩
    · exact ⟨[_], rfl, by simp [Event.isRemark, Event.isNote, Event.isSurvey]⟩

/-- A host that was built from settings is empty but for remarks in its journal. -/
theorem emitAll_of_assemble (hbuilt : assemble policies sampler timers clockEnd = .ok h) :
    ∃ events, h = (empty policies sampler timers clockEnd).emitAll events ∧
      ∀ event ∈ events, event.isRemark = true := by
  unfold assemble at hbuilt
  cases hresult : build policies sampler timers clockEnd with
  | error overflow => simp [hresult, Except.map] at hbuilt
  | ok g =>
    obtain ⟨events, rfl, hremarks⟩ := emitAll_of_build hresult
    simp only [hresult, Except.map, Except.ok.injEq] at hbuilt
    rw [emit_emitAll] at hbuilt
    refine ⟨_, hbuilt.symm, fun event hmem => ?_⟩
    rcases List.mem_append.1 hmem with hmem | hmem
    · exact hremarks event hmem
    · rw [List.mem_singleton.1 hmem]
      rfl

/-- A host that was just built is empty but for remarks in its journal. -/
theorem IsBuilt.eq_emitAll (hbuilt : IsBuilt policies sampler timers h) :
    ∃ clockEnd events, h = (empty policies sampler timers clockEnd).emitAll events ∧
      ∀ event ∈ events, event.isRemark = true := by
  obtain ⟨clockEnd, hbuilt | hbuilt⟩ := hbuilt
  · exact ⟨clockEnd, emitAll_of_build hbuilt⟩
  · exact ⟨clockEnd, emitAll_of_assemble hbuilt⟩

/-- A host that was just built governs what the empty host does. -/
theorem IsBuilt.quiet (hbuilt : IsBuilt policies sampler timers h) :
    Quiet (empty policies sampler timers h.clockEnd) h := by
  obtain ⟨clockEnd, events, rfl, -⟩ := hbuilt.eq_emitAll
  have hquiet := quiet_emitAll (empty policies sampler timers clockEnd) events
  rw [hquiet.clockEnd]
  exact hquiet

end Building

section Built

variable {policies : Policies} {sampler : Sampler} {timers : Bool} {start : Host}
  (hbuilt : IsBuilt policies sampler timers start)

include hbuilt

/-- Whatever is done to a host that was just built, it is reachable. -/
theorem IsBuilt.isReachable (actions : List Action) : IsReachable (start.performAll actions) :=
  ⟨policies, sampler, timers, start, actions, hbuilt, rfl⟩

/-- Whatever is done to a host, its policies are those it was built with. -/
theorem IsBuilt.policies_eq (actions : List Action) :
    (start.performAll actions).policies = policies := by
  have hserved : start.served ≤ start.clock := hbuilt.quiet.served le_rfl
  exact (start.performAll_changes actions hserved).policies_eq.trans hbuilt.quiet.policies

end Built

/-- A reachable host came from an empty one in small changes. -/
theorem IsReachable.changes {h : Host} (hreach : IsReachable h) :
    ∃ policies sampler timers clockEnd,
      Changes (fun _ => True) (empty policies sampler timers clockEnd) h := by
  obtain ⟨policies, sampler, timers, start, actions, hbuilt, rfl⟩ := hreach
  have hserved : start.served ≤ start.clock := hbuilt.quiet.served le_rfl
  exact ⟨policies, sampler, timers, start.clockEnd,
    (Changes.quiet hbuilt.quiet).trans (start.performAll_changes actions hserved)⟩

/-- A reachable host never looked for tasks in the future. -/
theorem IsReachable.served_le {h : Host} (hreach : IsReachable h) : h.served ≤ h.clock := by
  obtain ⟨policies, sampler, timers, clockEnd, hchanges⟩ := hreach.changes
  exact hchanges.served_le le_rfl

/-- What is done to a reachable host keeps it reachable. -/
theorem IsReachable.performAll {h : Host} (hreach : IsReachable h) (more : List Action) :
    IsReachable (h.performAll more) := by
  obtain ⟨policies, sampler, timers, start, actions, hbuilt, rfl⟩ := hreach
  exact ⟨policies, sampler, timers, start, actions ++ more, hbuilt, (performAll_append ..).symm⟩

end Host

end Steward
