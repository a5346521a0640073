import Steward.Proofs.Patrols

/-!
# Shutdown is final

When shutdown has seen the last background task end, no patrol waits any more. From then on a
patrol that is spawned ends at once, so none ever waits or fires again: whatever tasks do, they do
it in a lull, in which sessions, users, flags and estimates stay as callers left them.
-/

namespace Steward.Host

/-- A host whose patrols ended for good: shutdown began and no patrol waits. -/
structure Retired (h : Host) : Prop where
  shut : h.isShuttingDown = true
  unguarded : ∀ task ∈ h.tasks, ∀ patrol, task.work ≠ .patrol patrol

/-- One step of what can happen while tasks run and no patrol makes a cycle. -/
inductive Lull : Host → Host → Prop
  | ticked {h clock} (hle : h.clock ≤ clock) : Lull h { h with clock }
  | looked {h served} (hle : served ≤ h.clock) : Lull h { h with served }
  | noted {h} {event : Event} (hremark : event.isRemark = true) : Lull h (h.emit event)
  | dismissed {h} : Lull h h.endCancelled
  | fired {h task} (hmem : task ∈ h.tasks) (hdue : task.dueMillis ≤ h.clock)
      (hother : ∀ patrol, task.work ≠ .patrol patrol) : Lull h (h.fire task)
  | numbered {h} : Lull h h.fresh.2
  | opened {h} : Lull h h.openScope.2
  | fellAsleep {h} (id : Nat) (due : Span) (cancellable : Bool) :
      Lull h (h.await id due (.sleep cancellable))
  | shut {h} : Lull h (h.cancel .background)

/-- A row of steps in which no patrol makes a cycle. -/
def Lulls : Host → Host → Prop := Relation.ReflTransGen Lull

variable {h g k : Host}

/-! ## What a lull leaves alone -/

/-- What fires in a lull is a watched deadline or a sleeper: it ends at most one run. -/
theorem fire_lull {task : Task} (hother : ∀ patrol, task.work ≠ .patrol patrol) :
    (∃ name run, h.fire task = (h.dropTask task.id).endRun name run .timeout) ∨
      Quiet h (h.fire task) ∧ (h.fire task).tasks = (h.dropTask task.id).tasks := by
  have hdrop := h.quiet_dropTask task.id
  cases hwork : task.work with
  | watchDeadline user id scope =>
    have huntracked : task.isTracked = false := by simp [Task.isTracked, hwork]
    obtain ⟨_, _, _, -, ⟨run, -, -, -, hfire⟩ | ⟨-, hfire⟩⟩ :=
      fire_cases (h := h) huntracked
    · exact .inl ⟨_, run, hfire⟩
    · exact .inr ⟨hfire ▸ hdrop, by rw [hfire]⟩
  | patrol patrol => exact absurd hwork (hother patrol)
  | sleep cancellable =>
    have hfire : h.fire task = (h.dropTask task.id).closeScope task.id := by
      simp only [fire, hwork]
    rw [hfire]
    exact .inr ⟨hdrop.trans (quiet_closeScope _ _), (entry_closeScope _ _).tasks⟩

/-- In a lull, sessions, users, flags and the last measurement stay as they are. -/
theorem Lull.governed_eq (hstep : Lull h g) :
    g.sessions = h.sessions ∧ g.users = h.users ∧ g.inactive = h.inactive ∧
      g.lastSample = h.lastSample := by
  have hquiet {g : Host} (hg : Quiet h g) : g.sessions = h.sessions ∧ g.users = h.users ∧
      g.inactive = h.inactive ∧ g.lastSample = h.lastSample :=
    ⟨hg.sessions, hg.users, hg.inactive, hg.lastSample⟩
  cases hstep with
  | ticked => exact ⟨rfl, rfl, rfl, rfl⟩
  | looked hle => exact hquiet (h.quiet_served hle)
  | noted => exact hquiet (h.quiet_emit _)
  | dismissed => exact hquiet h.quiet_endCancelled
  | fired _ _ hother =>
    rcases fire_lull (h := h) hother with ⟨name, run, hfire⟩ | ⟨hg, -⟩
    · rw [hfire]
      simp [endRun, emit, dropTask]
    · exact hquiet hg
  | numbered => exact hquiet h.quiet_fresh
  | opened => exact hquiet h.quiet_openScope
  | fellAsleep id due cancellable => exact hquiet (h.quiet_await id due _)
  | shut => simp

/-- Through a row of lulls, sessions, users, flags and the last measurement stay as they are. -/
theorem Lulls.governed_eq (hsteps : Lulls h g) :
    g.sessions = h.sessions ∧ g.users = h.users ∧ g.inactive = h.inactive ∧
      g.lastSample = h.lastSample := by
  induction hsteps with
  | refl => exact ⟨rfl, rfl, rfl, rfl⟩
  | tail _ hstep ih =>
    obtain ⟨hsessions, husers, hinactive, hsample⟩ := hstep.governed_eq
    rw [hsessions, husers, hinactive, hsample]
    exact ih

/-! ## No patrol comes back -/

/-- A host is retired if shutdown began in it and its tasks are those of a retired one, sleepers or
watched deadlines. -/
theorem Retired.of_tasks (hr : h.Retired) (hkept : ∀ scope ∈ h.cancelled, scope ∈ g.cancelled)
    (htasks : ∀ task ∈ g.tasks, task ∈ h.tasks ∨ ∀ patrol, task.work ≠ .patrol patrol) :
    g.Retired where
  shut := isShuttingDown_iff.2 (hkept _ (isShuttingDown_iff.1 hr.shut))
  unguarded task hmem := by
    rcases htasks task hmem with hold | hother
    · exact hr.unguarded task hold
    · exact hother

/-- In a lull a retired host stays retired. -/
theorem Retired.lull (hr : h.Retired) (hstep : Lull h g) : g.Retired := by
  have hfewer {g : Host} (hkept : ∀ scope ∈ h.cancelled, scope ∈ g.cancelled)
      (htasks : ∀ task ∈ g.tasks, task ∈ h.tasks) : g.Retired :=
    hr.of_tasks hkept fun task hmem => .inl (htasks task hmem)
  cases hstep with
  | ticked | looked | noted | numbered => exact hfewer (fun _ hmem => hmem) fun _ hmem => hmem
  | dismissed =>
    refine hfewer (fun _ hmem => h.quiet_endCancelled.cancelled ▸ hmem) fun task hmem => ?_
    rw [tasks_endCancelled, hr.shut] at hmem
    exact (List.mem_filter.1 hmem).1
  | fired _ _ hother =>
    rcases fire_lull (h := h) hother with ⟨name, run, hfire⟩ | ⟨hquiet, htasks⟩
    · refine hfewer (fun scope hmem => ?_) fun task hmem => ?_
      · rw [hfire]
        exact mem_cancelled_cancel.2 (.inr hmem)
      · rw [hfire] at hmem
        simp only [endRun, emit, tasks_cancel] at hmem
        exact (List.mem_filter.1 hmem).1
    · refine hfewer (fun _ hmem => hquiet.cancelled ▸ hmem) fun task hmem => ?_
      rw [htasks] at hmem
      exact (List.mem_filter.1 hmem).1
  | opened =>
    exact hfewer (fun _ hmem => h.quiet_openScope.cancelled ▸ hmem)
      fun _ hmem => h.entry_childScope.tasks ▸ hmem
  | fellAsleep id due cancellable =>
    refine hr.of_tasks (fun _ hmem => hmem) fun task hmem => ?_
    rcases List.mem_append.1 hmem with hold | hnew
    · exact .inl hold
    · rw [List.mem_singleton.1 hnew]
      exact .inr fun _ => Work.noConfusion
  | shut =>
    exact hfewer (fun _ hmem => mem_cancelled_cancel.2 (.inr hmem))
      fun _ hmem => tasks_cancel h _ ▸ hmem

/-- Through a row of lulls a retired host stays retired. -/
theorem Retired.lulls (hr : h.Retired) (hsteps : Lulls h g) : g.Retired := by
  induction hsteps with
  | refl => exact hr
  | tail _ hstep ih => exact ih.lull hstep

/-- While time passes, what happens to a retired host happens in lulls. -/
theorem timing_lulls : Timing fun h g => h.Retired → Lulls h g where
  refl _ _ := .refl
  trans hg hk hr := (hg hr).trans (hk (hr.lulls (hg hr)))
  ticked hle _ := .single (.ticked hle)
  looked hle _ := .single (.looked hle)
  noted _ _ hremark _ := .single (.noted hremark)
  dismissed _ _ := .single .dismissed
  fired hmem hdue hr := .single (.fired hmem hdue (hr.unguarded _ hmem))

/-- Patrols are announced in lulls. -/
theorem lulls_announce (patrols : List Patrol) (h : Host) : Lulls h (announce patrols h).2 := by
  induction patrols generalizing h with
  | nil => exact .refl
  | cons patrol rest ih =>
    have hspawned : Lull h (h.emit (.taskSpawned patrol.taskName)) := .noted rfl
    exact .head hspawned (.head .opened (ih _))

/-- A patrol that begins after shutdown ends without a wait. -/
theorem Retired.lulls_beginPatrol (hr : h.Retired) (id : Nat) (patrol : Patrol) :
    Lulls h (h.beginPatrol id patrol) := by
  have hclosed : h.closeScope id = h := if_pos hr.shut
  simp only [beginPatrol, hclosed, hr.shut, if_true]
  split
  · exact .refl
  · split_ifs
    · exact .refl
    · exact .head (.noted rfl) (.single (.noted rfl))

/-- Patrols that begin after shutdown end without a wait. -/
theorem Retired.lulls_beginPatrols (hr : h.Retired) (spawned : List (Nat × Patrol)) :
    Lulls h (spawned.foldl (fun g entry => g.beginPatrol entry.1 entry.2) h) := by
  induction spawned generalizing h with
  | nil => exact .refl
  | cons first rest ih =>
    have hfirst := hr.lulls_beginPatrol first.1 first.2
    exact hfirst.trans (ih (hr.lulls hfirst))

/-- Spawning the patrols again brings none back. -/
theorem Retired.lulls_spawnPatrols (hr : h.Retired) : Lulls h h.spawnPatrols := by
  have hannounced := lulls_announce patrols h
  have hready := hannounced.trans (timing_lulls.runReady _ (hr.lulls hannounced))
  have hbegun := hready.trans ((hr.lulls hready).lulls_beginPatrols (announce patrols h).1)
  exact hbegun.trans (timing_lulls.settle _ (hr.lulls hbegun))

/-- Spawning a sleeper brings no patrol back. -/
theorem Retired.lulls_spawnSleeper (hr : h.Retired) (millis : Nat) (cancellable : Bool) :
    Lulls h (h.spawnSleeper millis cancellable) := by
  have hspawn {opened : Host} (hopened : Lulls h opened) (id : Nat) (due : Span) :
      Lulls h (opened.runReady.await id due (.sleep cancellable)).settle := by
    have hready := hopened.trans (timing_lulls.runReady _ (hr.lulls hopened))
    have hwaits := hready.tail (.fellAsleep id due cancellable)
    exact hwaits.trans (timing_lulls.settle _ (hr.lulls hwaits))
  cases cancellable with
  | false =>
    have hopened : Lulls h (h.emit (.taskSpawned "plain")).fresh.2 :=
      .head (.noted rfl) (.single .numbered)
    exact hspawn hopened _ _
  | true =>
    have hopened : Lulls h (h.emit (.taskSpawned "cancellable")).openScope.2 :=
      .head (.noted rfl) (.single .opened)
    have hready := hopened.trans (timing_lulls.runReady _ (hr.lulls hopened))
    simp only [Host.spawnSleeper, if_true, Bool.true_and, hr.shut]
    exact hready.trans (timing_lulls.settle _ (hr.lulls hready))

/-- Whatever lets tasks run in a retired host, it does so in lulls. -/
theorem Retired.lulls_perform (hr : h.Retired) {action : Action} (hruns : action.runsTasks = true)
    (hserved : h.served ≤ h.clock) : Lulls h (h.perform action) := by
  cases action with
  | spawnPatrols => exact hr.lulls_spawnPatrols
  | spawnSleeper millis cancellable => exact hr.lulls_spawnSleeper millis cancellable
  | shutdown millis =>
    exact timing_lulls.shutdown (fun _ _ => .single .shut) h millis hserved hr
  | advance millis => exact timing_lulls.advance h millis hr
  | sleep millis => exact timing_lulls.sleep h millis hr
  | _ => cases hruns

/-- A start adds no task but the watch of a deadline. -/
theorem tasks_start (h : Host) (user program : String) {task : Task}
    (hmem : task ∈ (h.start user program).2.tasks) :
    task ∈ h.tasks ∨ ∀ patrol, task.work ≠ .patrol patrol := by
  rcases h.start_cases user program with hentry | ⟨owner, run, -, -, -, -, hstarted⟩
  · exact .inl (hentry.tasks ▸ hmem)
  · rw [hstarted] at hmem
    unfold watchDeadline at hmem
    split_ifs at hmem
    · rcases List.mem_append.1 hmem with hold | hnew
      · exact .inl hold
      · rw [List.mem_singleton.1 hnew]
        exact .inr fun _ => Work.noConfusion
    · exact .inl hmem

/-- A check adds no task. -/
theorem tasks_check (h : Host) (user : String) (statement : Statement) :
    (h.check user statement).2.tasks = h.tasks := by
  rcases h.check_cases user statement with hentry | ⟨run, -, -, hcounted⟩
  · exact hentry.tasks
  · rw [hcounted]
    exact (entry_touch _ user).tasks

/-- Whatever is done to a retired host, it stays retired. -/
theorem Retired.perform (hr : h.Retired) (action : Action) (hserved : h.served ≤ h.clock) :
    (h.perform action).Retired := by
  have hkept := fun scope (hmem : scope ∈ h.cancelled) =>
    (h.perform_changes action hserved).cancelled_kept hmem
  by_cases hplain : action.isPlain = true
  · have htasks := (h.entry_perform hplain).tasks
    exact hr.of_tasks hkept fun task hmem => .inl (htasks ▸ hmem)
  · cases action with
    | start user program => exact hr.of_tasks hkept fun task hmem => h.tasks_start user program hmem
    | check user statement =>
      exact hr.of_tasks hkept fun task hmem => .inl (h.tasks_check user statement ▸ hmem)
    | jump millis => exact hr.of_tasks hkept fun task hmem => .inl hmem
    | spawnPatrols | spawnSleeper | shutdown | advance | sleep =>
      exact hr.lulls (hr.lulls_perform rfl hserved)
    | _ => exact absurd rfl hplain

/-- Through all that is done to a retired host, it stays retired. -/
theorem Retired.performAll (hr : h.Retired) (actions : List Action) (hserved : h.served ≤ h.clock) :
    (h.performAll actions).Retired := by
  induction actions generalizing h with
  | nil => exact hr
  | cons action rest ih =>
    have hlater := (h.perform_changes action hserved).served_le hserved
    exact ih (hr.perform action hserved) hlater

/-! ## Shutdown -/

/-- Waiting for tasks succeeds only when none is left that shutdown waits for. -/
theorem activeTasks_drain {target turns : Nat} (hdone : (drain target turns h).1 = true) :
    (drain target turns h).2.activeTasks = 0 := by
  induction turns generalizing h with
  | zero => cases hdone
  | succ turns ih =>
    unfold drain at hdone ⊢
    split_ifs at hdone ⊢ with hidle hbefore
    · exact hidle
    · cases hfirst : firstDue? (target - 1) h.tasks with
      | none =>
        rw [hfirst] at hdone
        cases hdone
      | some task =>
        rw [hfirst] at hdone
        exact ih hdone
    · cases hdone

/-- Shutdown succeeds only when no task is left that it waits for. -/
theorem activeTasks_shutdown {millis : Nat} (hdone : (h.shutdown millis).1 = true) :
    (h.shutdown millis).2.activeTasks = 0 := by
  simp only [shutdown] at hdone ⊢
  split_ifs at hdone ⊢ with hidle hpatience
  · simpa [activeTasks, emit] using hidle
  · cases hdone
  · exact activeTasks_drain hdone

/-- Shutdown cancels the background scope, so it makes no difference if that was cancelled. -/
theorem shutdown_cancel (h : Host) (millis : Nat) :
    (h.cancel .background).shutdown millis = h.shutdown millis := by
  have htwice (event : Event) : ((h.cancel .background).emit event).cancel .background =
      (h.emit event).cancel .background := by
    simp only [cancel, emit]
    split_ifs <;> simp_all
  have htasks : (h.cancel .background).activeTasks = h.activeTasks := by simp [activeTasks]
  simp only [shutdown, htwice, htasks, served_cancel, clock_cancel]

/-- After shutdown the background scope is cancelled. -/
theorem isShuttingDown_shutdown (hserved : h.served ≤ h.clock) (millis : Nat) :
    (h.shutdown millis).2.isShuttingDown = true := by
  have hbegun : Scope.background ∈ (h.cancel .background).cancelled :=
    mem_cancelled_cancel.2 (.inl rfl)
  have hlater : (h.cancel .background).served ≤ (h.cancel .background).clock := by simpa
  rw [← shutdown_cancel, isShuttingDown_iff]
  exact ((h.cancel .background).perform_changes (.shutdown millis) hlater).cancelled_kept hbegun

/-- A host is retired by a shutdown that succeeds. -/
theorem retired_shutdown (hserved : h.served ≤ h.clock) {millis : Nat}
    (hdone : (h.shutdown millis).1 = true) : (h.shutdown millis).2.Retired where
  shut := isShuttingDown_shutdown hserved millis
  unguarded task hmem patrol hwork := by
    have huntracked := List.countP_eq_zero.1 (activeTasks_shutdown hdone) task hmem
    simp [Task.isTracked, hwork] at huntracked

/-- A shutdown that succeeds is final. Every task that it waits for has ended by then, and whatever
is done afterwards, patrols spawned again and further shutdowns included, no patrol ever waits.
Whenever tasks run they do so in lulls, without a cycle of any patrol, and leave sessions, users
with their allowances and estimates, flags and the last measurement as they were. -/
theorem shutdown_final (hreach : h.IsReachable) {millis : Nat}
    (hdone : (h.shutdown millis).1 = true) :
    (h.shutdown millis).2.activeTasks = 0 ∧
      ∀ actions, let g := (h.shutdown millis).2.performAll actions
        g.Retired ∧ ∀ action, action.runsTasks = true →
          let k := g.perform action
          Lulls g k ∧ k.sessions = g.sessions ∧ k.users = g.users ∧ k.inactive = g.inactive ∧
            k.lastSample = g.lastSample := by
  refine ⟨activeTasks_shutdown hdone, fun actions => ?_⟩
  have hshut : (h.shutdown millis).2.IsReachable := hreach.performAll [.shutdown millis]
  have hretired := (retired_shutdown hreach.served_le hdone).performAll actions hshut.served_le
  refine ⟨hretired, fun action hruns => ?_⟩
  have hlulls := hretired.lulls_perform hruns (hshut.performAll actions).served_le
  exact ⟨hlulls, hlulls.governed_eq⟩

/-- Patrols that were spawned twice end with a shutdown, and a third set does not remove a session
that is idle for days. -/
theorem shutdown_final_of_patrols :
    ∃ start, IsBuilt {} ⟨⟨100, 0, 2048, 0⟩, none⟩ true start ∧
      let h := start.performAll
        [.registerSession "desk" "ana" "10.0.0.1", .spawnPatrols, .spawnPatrols]
      h.activeTasks = 6 ∧ (h.shutdown 1000).1 = true ∧ (h.shutdown 1000).2.activeTasks = 0 ∧
        let k := (h.shutdown 1000).2.performAll [.spawnPatrols, .sleep 200000000]
        k.Retired ∧ k.sessions.contains "desk" = true := by
  refine ⟨_, .of_build rfl, ?_⟩
  have hbuilt : IsBuilt {} ⟨⟨100, 0, 2048, 0⟩, none⟩ true _ := .of_build rfl
  have hreach := hbuilt.isReachable
    [.registerSession "desk" "ana" "10.0.0.1", .spawnPatrols, .spawnPatrols]
  obtain ⟨hidle, hlater⟩ := @shutdown_final _ hreach 1000 rfl
  have hspawned := (hlater []).2 .spawnPatrols rfl
  have hslept := (hlater [.spawnPatrols]).2 (.sleep 200000000) rfl
  refine ⟨rfl, rfl, hidle, (hlater [.spawnPatrols, .sleep 200000000]).1, ?_⟩
  exact congrArg (Table.contains · "desk") (hslept.2.1.trans hspawned.2.1)

end Steward.Host
