import Steward.Proofs.Operations

/-!
# What waiting tasks do

A task that fires ends an overdue run, surveys the users, ends the oldest run or removes idle
sessions, and nothing else. So a relation between hosts that contains these few steps, and the
passing of time, contains everything that happens while tasks run, in whatever order they fire. Most
of what tasks do besides is calm: it only adds remarks to the journal.
-/

namespace Steward.Host

/-! ## Calm changes -/

/-- A quiet change that reports nothing but remarks and has no further deadline watched. -/
structure Calm (h g : Host) : Prop extends Quiet h g where
  remarks : ∃ events, g.journal = events ++ h.journal ∧ ∀ event ∈ events, event.isRemark = true
  watches : ∀ task ∈ g.tasks, task.isTracked = false → task ∈ h.tasks

namespace Calm

variable {h g k : Host}

/-- A quiet change that reports nothing is calm if it has no further deadline watched. -/
theorem of_journal_eq (hquiet : Quiet h g) (hjournal : g.journal = h.journal)
    (hwatches : ∀ task ∈ g.tasks, task.isTracked = false → task ∈ h.tasks) : Calm h g where
  toQuiet := hquiet
  remarks := ⟨[], hjournal, by simp⟩
  watches := hwatches

/-- Nothing happened. -/
protected theorem refl (h : Host) : Calm h h :=
  .of_journal_eq (.refl h) rfl fun _ hmem _ => hmem

/-- One thing after the other. -/
protected theorem trans (hg : Calm h g) (hk : Calm g k) : Calm h k where
  toQuiet := hg.toQuiet.trans hk.toQuiet
  remarks := by
    obtain ⟨earlier, hearlier, hbefore⟩ := hg.remarks
    obtain ⟨later, hlater, hafter⟩ := hk.remarks
    refine ⟨later ++ earlier, by rw [hlater, hearlier, List.append_assoc], ?_⟩
    intro event hmem
    rcases List.mem_append.1 hmem with hmem | hmem
    · exact hafter event hmem
    · exact hbefore event hmem
  watches task hmem huntracked := hg.watches task (hk.watches task hmem huntracked) huntracked

end Calm

section CalmUpdates

variable (h : Host)

/-- A remark is calm. -/
theorem calm_emit {event : Event} (hremark : event.isRemark = true) : Calm h (h.emit event) where
  toQuiet := h.quiet_emit event
  remarks := ⟨[event], rfl, by simpa using hremark⟩
  watches _ hmem _ := hmem

/-- Remarks are calm. -/
theorem calm_emitAll {events : List Event} (hremarks : ∀ event ∈ events, event.isRemark = true) :
    Calm h (h.emitAll events) := by
  induction events generalizing h with
  | nil => exact .refl h
  | cons event rest ih =>
    have hfirst := h.calm_emit (hremarks event List.mem_cons_self)
    exact hfirst.trans (ih _ fun other hmem => hremarks other (List.mem_cons_of_mem _ hmem))

/-- Taking a number is calm. -/
theorem calm_fresh : Calm h h.fresh.2 :=
  .of_journal_eq h.quiet_fresh rfl fun _ hmem _ => hmem

/-- Waiting for anything but a deadline is calm. -/
theorem calm_await (id : Nat) (due : Span) {work : Work}
    (htracked : Task.isTracked ⟨id, due, work⟩ = true) : Calm h (h.await id due work) := by
  refine .of_journal_eq (h.quiet_await id due work) rfl fun task hmem huntracked => ?_
  rcases List.mem_append.1 hmem with hmem | hmem
  · exact hmem
  · rw [List.mem_singleton.1 hmem, htracked] at huntracked
    cases huntracked

/-- A task that no longer waits is calm. -/
theorem calm_dropTask (id : Nat) : Calm h (h.dropTask id) :=
  .of_journal_eq (h.quiet_dropTask id) rfl fun _ hmem _ => (List.mem_filter.1 hmem).1

/-- Having looked for tasks is calm. -/
theorem calm_served {served : Nat} (hle : served ≤ h.clock) : Calm h { h with served } :=
  .of_journal_eq (h.quiet_served hle) rfl fun _ hmem _ => hmem

/-- A scope opened under the background scope is calm. -/
theorem calm_openScope : Calm h h.openScope.2 := by
  refine .of_journal_eq h.quiet_openScope ?_ ?_
  · simp only [openScope]
    split <;> rfl
  · simp only [openScope]
    split <;> exact fun _ hmem _ => hmem

/-- A scope closed under the background scope is calm. -/
theorem calm_closeScope (id : Nat) : Calm h (h.closeScope id) := by
  refine .of_journal_eq (h.quiet_closeScope id) ?_ ?_
  · unfold closeScope
    split <;> rfl
  · unfold closeScope
    split <;> exact fun _ hmem _ => hmem

/-- Cancelled tasks end calmly. -/
theorem calm_endCancelled : Calm h h.endCancelled := by
  unfold endCancelled
  split
  · have hdismissed : Calm h { h with tasks := h.tasks.filter fun task => !task.isCancellable } :=
      .of_journal_eq (.of_eq rfl le_rfl id) rfl fun _ hmem _ => (List.mem_filter.1 hmem).1
    refine hdismissed.trans (calm_emitAll _ fun event hmem => ?_)
    obtain ⟨task, -, hevent⟩ := List.mem_filterMap.1 hmem
    split at hevent
    · cases hevent
      rfl
    · cases hevent
  · exact .refl h

end CalmUpdates

/-! ## One task -/

/-- A relation between hosts that contains what the cycles of patrols do. The removal of a session
is one step here, because the tiers agree only when it is complete. -/
structure Cycling (r : Host → Host → Prop) : Prop where
  refl : ∀ h, r h h
  trans : ∀ {h g k}, r h g → r g k → r h k
  noted : ∀ h {event : Event}, event.isRemark = true → r h (h.emit event)
  evicted : ∀ {h : Host} {name run}, h.runs.find? name = some run →
    r h (h.endRun name run .memoryPressure)
  surveyed : ∀ h, r h h.monitorCycle.2
  removed : ∀ h id, r h (h.removeSession id).2

/-- A relation between hosts that contains what a single task does when it fires. The end of a
watched deadline is one step here, because it rests on what was watched. -/
structure Firing (r : Host → Host → Prop) : Prop extends Cycling r where
  calm : ∀ {h g}, Calm h g → r h g
  watched : ∀ {h : Host} {task : Task}, task ∈ h.tasks → task.dueMillis ≤ h.clock →
    task.isTracked = false → r h (h.fire task)

/-- A watched run is ended if it still is the run of its user. -/
theorem finishRun_cases (h : Host) (name : String) (id : Nat) (reason : StopReason) :
    (∃ run, h.runs.find? name = some run ∧ run.id = id ∧
        h.finishRun name id reason = h.endRun name run reason) ∨
      (∀ run, h.runs.find? name = some run → run.id ≠ id) ∧ h.finishRun name id reason = h := by
  unfold finishRun run?
  cases hfound : h.runs.find? name with
  | none => exact .inr ⟨by simp, rfl⟩
  | some run =>
    by_cases hid : run.id = id
    · exact .inl ⟨run, rfl, hid, if_pos hid⟩
    · refine .inr ⟨fun other hother => ?_, if_neg hid⟩
      cases hother
      exact hid

/-- What fires for a watched deadline ends the run that it was watched for, if this is current and
its scope is open. -/
theorem fire_cases {h : Host} {task : Task} (huntracked : task.isTracked = false) :
    ∃ user id scope, task.work = .watchDeadline user id scope ∧
      ((∃ run, h.runs.find? user = some run ∧ run.id = id ∧ h.isCancelled scope = false ∧
          h.fire task = (h.dropTask task.id).endRun user run .timeout) ∨
        (h.isCancelled scope = true ∨ ∀ run, h.runs.find? user = some run → run.id ≠ id) ∧
          h.fire task = h.dropTask task.id) := by
  cases hwork : task.work with
  | watchDeadline user id scope =>
    refine ⟨user, id, scope, rfl, ?_⟩
    have hscope : (h.dropTask task.id).isCancelled scope = h.isCancelled scope := by
      cases scope <;> rfl
    cases hcancelled : h.isCancelled scope with
    | true => exact .inr ⟨.inl rfl, by simp [fire, hwork, hscope, hcancelled]⟩
    | false =>
      have hfire : h.fire task = (h.dropTask task.id).finishRun user id .timeout := by
        simp [fire, hwork, hscope, hcancelled]
      rw [hfire]
      rcases (h.dropTask task.id).finishRun_cases user id .timeout with
        ⟨run, hfound, hid, hfinish⟩ | ⟨hother, hfinish⟩
      · exact .inl ⟨run, hfound, hid, rfl, hfinish⟩
      · exact .inr ⟨.inr hother, hfinish⟩
  | patrol patrol => simp [Task.isTracked, hwork] at huntracked
  | sleep cancellable => simp [Task.isTracked, hwork] at huntracked

/-- A relation that contains all quiet changes, and what takes users, runs and sessions out,
contains what a task does when it fires. -/
theorem Firing.of_quiet {r : Host → Host → Prop} (hrefl : ∀ h, r h h)
    (htrans : ∀ {h g k}, r h g → r g k → r h k) (hquiet : ∀ {h g}, Quiet h g → r h g)
    (hended : ∀ {h : Host} {name run} (reason : StopReason), h.runs.find? name = some run →
      r h (h.endRun name run reason))
    (hsurveyed : ∀ h, r h h.monitorCycle.2) (hremoved : ∀ h id, r h (h.removeSession id).2) :
    Firing r where
  refl := hrefl
  trans := htrans
  noted h event _ := hquiet (h.quiet_emit event)
  calm hcalm := hquiet hcalm.toQuiet
  evicted hfound := hended _ hfound
  watched {h task} _ _ huntracked := by
    have hdrop := hquiet (h.quiet_dropTask task.id)
    obtain ⟨user, id, scope, -, ⟨run, hfound, -, -, hfire⟩ | ⟨-, hfire⟩⟩ :=
      fire_cases (h := h) huntracked
    · rw [hfire]
      exact htrans hdrop (hended _ hfound)
    · rw [hfire]
      exact hdrop
  surveyed := hsurveyed
  removed := hremoved

namespace Cycling

variable {r : Host → Host → Prop} (hr : Cycling r)
include hr

/-- One thing after another. -/
theorem foldl {α : Type} {f : Host → α → Host} (hf : ∀ h item, r h (f h item)) (items : List α)
    (h : Host) : r h (items.foldl f h) := by
  induction items generalizing h with
  | nil => exact hr.refl h
  | cons item rest ih => exact hr.trans (hf h item) (ih (f h item))

/-- A cycle of the memory guard ends at most the oldest run. -/
theorem guardCycle (h : Host) : r h h.guardCycle.2 := by
  unfold Host.guardCycle
  cases h.sampler.measure with
  | error fault => exact hr.refl h
  | ok sample =>
    dsimp only
    split_ifs
    · exact hr.refl h
    · cases hold : h.oldestRun? with
      | none => exact hr.noted h rfl
      | some entry =>
        obtain ⟨name, run⟩ := entry
        have hwarned : r h (h.emit (.evicting name run.program sample.processMemory
            h.memoryPool)) := hr.noted h rfl
        exact hr.trans hwarned (hr.evicted (find?_of_oldestRun? hold))

/-- Sessions are removed one after the other. -/
theorem removeSessions (h : Host) (ids : List String) : r h (h.removeSessions ids).2 := by
  induction ids generalizing h with
  | nil => exact hr.refl h
  | cons id rest ih =>
    have hremove := hr.removed h id
    unfold Host.removeSessions
    rcases hfirst : h.removeSession id with ⟨fault | value, left⟩ <;> rw [hfirst] at hremove
    · exact hr.trans hremove (ih left)
    · exact hr.trans hremove (ih left)

/-- An idle sweep removes sessions. -/
theorem sweep (h : Host) : r h h.sweep.2 := by
  have hremove := hr.removeSessions h h.idleSessions
  unfold Host.sweep
  rcases hall : h.removeSessions h.idleSessions with ⟨_ | ⟨id, rest⟩, left⟩ <;>
    rw [hall] at hremove
  · exact hremove
  · exact hr.trans hremove (hr.noted _ rfl)

/-- A cycle of a patrol, also a failing one. -/
theorem patrolCycle (h : Host) (patrol : Patrol) : r h (h.patrolCycle patrol) := by
  cases patrol with
  | monitor =>
    have hcycle := hr.surveyed h
    unfold Host.patrolCycle
    rcases hresult : h.monitorCycle with ⟨fault | sample, after⟩ <;> rw [hresult] at hcycle
    · exact hr.trans hcycle (hr.noted _ rfl)
    · exact hcycle
  | memoryGuard =>
    have hcycle := hr.guardCycle h
    unfold Host.patrolCycle
    rcases hresult : h.guardCycle with ⟨fault | user, after⟩ <;> rw [hresult] at hcycle
    · exact hr.trans hcycle (hr.noted _ rfl)
    · exact hcycle
  | idleSweep => exact hr.sweep h

end Cycling

namespace Firing

variable {r : Host → Host → Prop} (hr : Firing r)
include hr

/-- The cycles that a patrol is behind. -/
theorem patrolFrom (id : Nat) (patrol : Patrol) (cycles : Nat) (due : Span) (h : Host) :
    r h (patrolFrom id patrol cycles due h) := by
  induction cycles generalizing due h with
  | zero => exact hr.calm (h.calm_await _ _ rfl)
  | succ cycles ih =>
    have hcycle := hr.patrolCycle h patrol
    simp only [Host.patrolFrom]
    split_ifs
    · exact hr.trans hcycle (ih _ _)
    · exact hr.trans hcycle (hr.calm (calm_await _ _ _ rfl))

/-- A task that fires when it is due. -/
theorem fire {h : Host} {task : Task} (hmem : task ∈ h.tasks) (hdue : task.dueMillis ≤ h.clock) :
    r h (h.fire task) := by
  have hdrop := hr.calm (h.calm_dropTask task.id)
  cases hwork : task.work with
  | watchDeadline user id scope =>
    exact hr.watched hmem hdue (by simp [Task.isTracked, hwork])
  | patrol patrol =>
    simp only [Host.fire, hwork]
    exact hr.trans hdrop (hr.patrolFrom _ _ _ _ _)
  | sleep cancellable =>
    simp only [Host.fire, hwork]
    exact hr.trans hdrop (hr.calm (calm_closeScope _ _))

end Firing

/-! ## The clock while tasks fire -/

/-- A single task does what needs no caller and no time. -/
theorem firing_changes {may : Effect → Prop} (hended : ∀ name, may (.ended name))
    (hsurveyed : may .surveyed) (hclosed : ∀ id, may (.closed id))
    (hleft : ∀ name, may (.left name)) : Firing (Changes may) :=
  .of_quiet .refl .trans .quiet (fun reason hfound => changes_endRun (hended _) hfound _ rfl reason)
    (fun _ => changes_monitorCycle hsurveyed)
    (fun _ id => changes_removeSession (hclosed id) hended hleft)

/-- Only the clock itself moves the clock. -/
theorem Change.clock_eq {effect : Effect} {h g : Host} (hchange : Change effect h g)
    (heffect : effect ≠ .ticked) : g.clock = h.clock := by
  cases hchange with
  | ticked => exact absurd rfl heffect
  | released => unfold releaseWorker; split <;> rfl
  | left => simp [removeUser, reshare]
  | _ => simp [welcome, reshare, spreadUsage]

/-- Where the clock may not move, it stays. -/
theorem Changes.clock_eq {may : Effect → Prop} {h g : Host} (hchanges : Changes may h g)
    (hticked : ¬may .ticked) : g.clock = h.clock := by
  refine hchanges.preserves (p := fun k => k.clock = h.clock) ?_ ?_ rfl
  · exact fun hquiet heq => hquiet.clock.trans heq
  · intro effect a b heffect hchange heq
    have hstill : effect ≠ .ticked := fun hmoves => hticked (hmoves ▸ heffect)
    exact (hchange.clock_eq hstill).trans heq

/-- A task that fires does not move the clock. -/
theorem clock_fire {h : Host} {task : Task} (hmem : task ∈ h.tasks)
    (hdue : task.dueMillis ≤ h.clock) : (h.fire task).clock = h.clock := by
  have hfiring : Firing (Changes (· ≠ .ticked)) :=
    firing_changes (by simp) (by simp) (by simp) (by simp)
  exact (hfiring.fire hmem hdue).clock_eq (by simp)

/-- A task that fires first is one of the tasks and due by the limit. -/
theorem firstDue?_spec {limit : Nat} {tasks : List Task} {task : Task}
    (hfirst : firstDue? limit tasks = some task) : task ∈ tasks ∧ task.dueMillis ≤ limit := by
  induction tasks generalizing task with
  | nil => cases hfirst
  | cons head rest ih =>
    simp only [firstDue?] at hfirst
    cases hrest : firstDue? limit rest with
    | none =>
      rw [hrest] at hfirst
      dsimp only at hfirst
      split_ifs at hfirst with hdue
      cases hfirst
      exact ⟨List.mem_cons_self, hdue⟩
    | some later =>
      rw [hrest] at hfirst
      obtain ⟨hmem, hlater⟩ := ih hrest
      dsimp only at hfirst
      split_ifs at hfirst with hdue <;> cases hfirst
      · exact ⟨List.mem_cons_self, hdue.trans hlater⟩
      · exact ⟨List.mem_cons_of_mem _ hmem, hlater⟩

/-- While tasks fire, the clock does not pass the limit. -/
theorem clock_fireUpTo_le (limit steps : Nat) (h : Host) :
    (fireUpTo limit steps h).clock ≤ max h.clock limit := by
  induction steps generalizing h with
  | zero => exact le_max_left _ _
  | succ steps ih =>
    unfold fireUpTo
    cases hfirst : firstDue? limit h.tasks with
    | none => exact le_max_left _ _
    | some task =>
      obtain ⟨hmem, hdue⟩ := firstDue?_spec hfirst
      have hfire : (fire { h with clock := max h.clock task.dueMillis } task).clock =
          max h.clock task.dueMillis := clock_fire hmem (le_max_right _ _)
      refine (ih _).trans ?_
      rw [hfire]
      omega

/-- While tasks fire, the clock does not pass the limit. -/
theorem clock_fireDue_le (h : Host) (limit : Nat) :
    (h.fireDue limit).clock ≤ max h.clock limit :=
  clock_fireUpTo_le limit _ h

/-- The clock never moves back. -/
theorem Changes.clock_le {may : Effect → Prop} {h g : Host} (hchanges : Changes may h g) :
    h.clock ≤ g.clock := by
  refine hchanges.preserves (p := fun k => h.clock ≤ k.clock) ?_ ?_ le_rfl
  · exact fun hquiet hle => hquiet.clock ▸ hle
  · intro effect a b _ hchange hle
    by_cases heffect : effect = .ticked
    · subst heffect
      cases hchange with
      | ticked hlater => exact hle.trans hlater
    · rwa [hchange.clock_eq heffect]

/-- Tasks were never looked for in the future. -/
theorem Changes.served_le {may : Effect → Prop} {h g : Host} (hchanges : Changes may h g)
    (hserved : h.served ≤ h.clock) : g.served ≤ g.clock := by
  refine hchanges.preserves (p := fun k => k.served ≤ k.clock) ?_ ?_ hserved
  · exact fun hquiet => hquiet.served
  · intro effect a b _ hchange hle
    cases hchange with
    | ticked hlater => exact hle.trans hlater
    | released => unfold releaseWorker; split <;> exact hle
    | left => simpa [removeUser, reshare] using hle
    | ended => simpa using hle
    | cancelled => simpa using hle
    | _ => exact hle

/-! ## Time -/

/-- A relation between hosts that contains what happens while time passes, task by task. -/
structure Timing (r : Host → Host → Prop) : Prop where
  refl : ∀ h, r h h
  trans : ∀ {h g k}, r h g → r g k → r h k
  ticked : ∀ {h : Host} {clock : Nat}, h.clock ≤ clock → r h { h with clock }
  looked : ∀ {h : Host} {served : Nat}, served ≤ h.clock → r h { h with served }
  noted : ∀ h {event : Event}, event.isRemark = true → r h (h.emit event)
  dismissed : ∀ h, r h h.endCancelled
  fired : ∀ {h : Host} {task : Task}, task ∈ h.tasks → task.dueMillis ≤ h.clock →
    r h (h.fire task)

/-- What contains single tasks and the passing of time contains what happens while time passes. -/
theorem Firing.timing {r : Host → Host → Prop} (hr : Firing r)
    (hticked : ∀ {h : Host} {clock : Nat}, h.clock ≤ clock → r h { h with clock }) : Timing r where
  refl := hr.refl
  trans := hr.trans
  ticked := hticked
  looked hle := hr.calm (calm_served _ hle)
  noted h _ hremark := hr.calm (h.calm_emit hremark)
  dismissed h := hr.calm h.calm_endCancelled
  fired := hr.fire

/-- What time may do, as a row of changes. -/
theorem timing_changes {may : Effect → Prop} (hfiring : Firing (Changes may))
    (hticked : may .ticked) : Timing (Changes may) :=
  hfiring.timing fun hle => .single hticked (.ticked hle)

namespace Timing

variable {r : Host → Host → Prop} (hr : Timing r)
include hr

/-- Everything that fires up to a limit, in some steps. -/
theorem fireUpTo (limit steps : Nat) (h : Host) : r h (fireUpTo limit steps h) := by
  induction steps generalizing h with
  | zero => exact hr.refl h
  | succ steps ih =>
    unfold Host.fireUpTo
    cases hfirst : firstDue? limit h.tasks with
    | none => exact hr.refl h
    | some task =>
      have htick := hr.ticked (le_max_left h.clock task.dueMillis)
      have hfire : r { h with clock := max h.clock task.dueMillis } _ :=
        hr.fired (firstDue?_spec hfirst).1 (le_max_right _ _)
      exact hr.trans htick (hr.trans hfire (ih _))

/-- Everything that fires up to a limit. -/
theorem fireDue (h : Host) (limit : Nat) : r h (h.fireDue limit) := hr.fireUpTo limit _ h

end Timing

/-- While tasks fire, the clock does not move back. -/
theorem clock_le_fireDue (h : Host) (limit : Nat) : h.clock ≤ (h.fireDue limit).clock := by
  have htiming : Timing (Changes fun _ => True) :=
    timing_changes (firing_changes (by simp) (by simp) (by simp) (by simp)) trivial
  exact (htiming.fireUpTo limit _ h).clock_le

namespace Timing

variable {r : Host → Host → Prop} (hr : Timing r)
include hr

/-- Everything that is ready. -/
theorem runReady (h : Host) : r h h.runReady :=
  hr.trans (hr.dismissed h) (hr.fireDue _ _)

/-- Everything that is ready or due. -/
theorem settle (h : Host) : r h h.settle := by
  have hended := h.quiet_endCancelled
  have hclock : h.clock ≤ (h.endCancelled.fireDue h.clock).clock := by
    simpa [hended.clock] using clock_le_fireDue h.endCancelled h.clock
  exact hr.trans (hr.dismissed h) (hr.trans (hr.fireDue _ _) (hr.looked hclock))

/-- The clock moves and nothing fires. -/
theorem jump (h : Host) (millis : Nat) : r h (h.jump millis) := hr.ticked (Nat.le_add_right _ _)

/-- The clock moves at once. -/
theorem advance (h : Host) (millis : Nat) : r h (h.advance millis) :=
  hr.trans (hr.jump h millis) (hr.settle _)

/-- Time passes. -/
theorem sleep (h : Host) (millis : Nat) : r h (h.sleep millis) := by
  have hended := h.quiet_endCancelled
  have hclock : (h.endCancelled.fireDue (h.clock + millis)).clock ≤ h.clock + millis := by
    have hle := clock_fireDue_le h.endCancelled (h.clock + millis)
    rw [hended.clock] at hle
    omega
  refine hr.trans (hr.dismissed h) (hr.trans (hr.fireDue _ (h.clock + millis)) ?_)
  exact hr.trans (hr.ticked hclock) (hr.looked le_rfl)

/-- Waiting for tasks ends at a time that is not past. -/
theorem giveUp (h : Host) {target : Nat} (hle : h.clock ≤ target) : r h (h.giveUp target).2 :=
  hr.trans (hr.ticked hle) (hr.trans (hr.looked le_rfl) (hr.noted _ rfl))

/-- Time passes while tasks are waited for. -/
theorem drain (target turns : Nat) (h : Host) (hle : h.clock ≤ target) :
    r h (drain target turns h).2 := by
  induction turns generalizing h with
  | zero => exact hr.giveUp h hle
  | succ turns ih =>
    unfold Host.drain
    split_ifs with hidle hbefore
    · exact hr.trans (hr.looked le_rfl) (hr.noted _ rfl)
    · cases hfirst : firstDue? (target - 1) h.tasks with
      | none => exact hr.giveUp h hle
      | some task =>
        have hdue := (firstDue?_spec hfirst).2
        have hlimit := clock_fireDue_le h (max h.clock task.dueMillis)
        exact hr.trans (hr.fireDue h _) (ih _ (by omega))
    · exact hr.giveUp h hle

/-- Shutdown, on a host that never looked for tasks in the future. -/
theorem shutdown (hshut : ∀ g, r g (g.cancel .background)) (h : Host) (millis : Nat)
    (hserved : h.served ≤ h.clock) : r h (h.shutdown millis).2 := by
  have hcancelled : r h ((h.emit (.shutdownBegun (Span.ofMillis millis).seconds
      h.activeTasks)).cancel .background) :=
    hr.trans (hr.noted h rfl) (hshut _)
  simp only [Host.shutdown]
  split_ifs
  · exact hr.trans hcancelled (hr.noted _ rfl)
  · exact hr.trans hcancelled (hr.giveUp _ (by simp [emit]))
  · refine hr.trans hcancelled (hr.trans (hr.runReady _) (hr.drain _ _ _ ?_))
    have hready := clock_fireDue_le ((h.emit (.shutdownBegun (Span.ofMillis millis).seconds
      h.activeTasks)).cancel .background).endCancelled h.served
    rw [(quiet_endCancelled _).clock] at hready
    simp only [clock_cancel, emit] at hready
    simp only [Host.runReady, served_cancel, emit]
    omega

end Timing

/-! ## Spawning -/

/-- A patrol that begins is calm. -/
theorem calm_beginPatrol (h : Host) (id : Nat) (patrol : Patrol) :
    Calm h (h.beginPatrol id patrol) := by
  have hstarted : Calm h (h.emit (.patrolStarted patrol (h.period patrol).seconds)) :=
    h.calm_emit rfl
  simp only [beginPatrol]
  split
  · exact h.calm_closeScope id
  · split_ifs
    · exact h.calm_closeScope id
    · exact hstarted.trans (calm_emit _ rfl)
    · exact hstarted.trans (calm_await _ _ _ rfl)

/-- Patrols that are announced are calm. -/
theorem calm_announce (patrols : List Patrol) (h : Host) : Calm h (announce patrols h).2 := by
  induction patrols generalizing h with
  | nil => exact .refl h
  | cons patrol rest ih =>
    have hspawned : Calm h (h.emit (.taskSpawned patrol.taskName)) := h.calm_emit rfl
    exact (hspawned.trans (calm_openScope _)).trans (ih _)

namespace Firing

variable {r : Host → Host → Prop} (hr : Firing r)
include hr

/-- The patrols are spawned. -/
theorem spawnPatrols (ht : Timing r) (h : Host) : r h h.spawnPatrols := by
  have hbegin := hr.foldl (fun g spawned => hr.calm (g.calm_beginPatrol spawned.1 spawned.2))
    (announce patrols h).1 (announce patrols h).2.runReady
  exact hr.trans (hr.calm (calm_announce patrols h))
    (hr.trans (ht.runReady _) (hr.trans hbegin (ht.settle _)))

/-- A sleeper is spawned. -/
theorem spawnSleeper (ht : Timing r) (h : Host) (millis : Nat) (cancellable : Bool) :
    r h (h.spawnSleeper millis cancellable) := by
  have hspawn {opened : Host} (hopened : Calm h opened) (id : Nat) (due : Span) :
      r h (opened.runReady.await id due (.sleep cancellable)).settle :=
    hr.trans (hr.calm hopened) (hr.trans (ht.runReady _)
      (hr.trans (hr.calm (calm_await _ _ _ rfl)) (ht.settle _)))
  cases cancellable with
  | false => exact hspawn ((h.calm_emit rfl).trans (calm_fresh _)) _ _
  | true =>
    have hopened : Calm h (h.emit (.taskSpawned "cancellable")).openScope.2 :=
      (h.calm_emit rfl).trans (calm_openScope _)
    simp only [Host.spawnSleeper, if_true, Bool.true_and]
    split_ifs
    · exact hr.trans (hr.calm hopened) (hr.trans (ht.runReady _) (ht.settle _))
    · exact hspawn hopened _ _

end Firing

end Steward.Host
