import Steward.Proofs.CompleteJournal
import Steward.Proofs.OpenScopes

/-!
# The queue of waiting tasks

Every waiting task has an identity of its own, and every patrol that waits moves on when it fires. A
run that goes on in an open scope has a task that watches its deadline, and a task never watches
another deadline than that of the run it names. So when tasks fire, the watched deadlines are those
of the runs that are there, and once all that is due has fired, nothing due is left.
-/

namespace Steward

/-- A point is met by a whole millisecond that is not before it. -/
theorem Span.ceilMillis_le_iff {point : Span} {millis : Nat} :
    point.ceilMillis ≤ millis ↔ point ≤ .ofMillis millis := by
  change (point.nanos + 999999) / 1000000 ≤ millis ↔ point.nanos ≤ 1000000 * millis
  omega

namespace Host

/-- Waiting tasks and further tasks, for which identities are reserved, are told apart. -/
structure TasksApart (reserved : List Nat) (h : Host) : Prop where
  distinct : (h.tasks.map Task.id ++ reserved).Nodup
  issued : ∀ id ∈ h.tasks.map Task.id ++ reserved, id < h.nextId

/-- A host in which patrols move on, and the deadlines of runs are watched and no others. -/
structure Watchful (reserved : List Nat) (h : Host) : Prop extends TasksApart reserved h where
  moving : ∀ task ∈ h.tasks, ∀ patrol, task.work = .patrol patrol → 0 < (h.period patrol).nanos
  able : ∀ task ∈ h.tasks, task.isTracked = false → h.timers = true
  watching : ∀ task ∈ h.tasks, ∀ user id scope, task.work = .watchDeadline user id scope →
    id < h.nextId ∧ ∀ run, h.runs.find? user = some run → run.id = id →
      run.scope = scope ∧ run.deadline = task.due
  watched : h.timers = true → ∀ user run, h.runs.find? user = some run →
    h.isCancelled run.scope = false →
      ∃ task ∈ h.tasks, task.work = .watchDeadline user run.id run.scope

variable {reserved : List Nat} {h g : Host}

namespace TasksApart

/-- Tasks of one identity are one task. -/
theorem eq_of_id (ha : h.TasksApart reserved) {task other : Task} (hmem : task ∈ h.tasks)
    (hother : other ∈ h.tasks) (hid : task.id = other.id) : task = other :=
  List.inj_on_of_nodup_map ha.distinct.of_append_left hmem hother hid

/-- Fewer tasks are told apart as well. -/
theorem fewer (ha : h.TasksApart reserved) (htasks : g.tasks.Sublist h.tasks)
    (hnext : h.nextId ≤ g.nextId) : g.TasksApart reserved where
  distinct := ha.distinct.sublist ((htasks.map _).append_right reserved)
  issued id hmem :=
    (ha.issued id (((htasks.map _).append_right reserved).subset hmem)).trans_le hnext

/-- The identity of a task that no longer waits can be reserved. -/
theorem dropped (ha : h.TasksApart reserved) {task : Task} (hmem : task ∈ h.tasks) :
    (h.dropTask task.id).TasksApart (task.id :: reserved) := by
  have hfewer := ha.fewer (g := h.dropTask task.id) List.filter_sublist le_rfl
  have hid : task.id ∈ h.tasks.map Task.id := List.mem_map_of_mem hmem
  constructor
  · refine List.nodup_middle.2 (List.nodup_cons.2 ⟨?_, hfewer.distinct⟩)
    simp only [List.mem_append, not_or]
    constructor
    · simp [dropTask]
    · exact fun hold => (List.nodup_append.1 ha.distinct).2.2 _ hid _ hold rfl
  · intro id hmem'
    rcases List.mem_append.1 hmem' with hold | hnew
    · exact hfewer.issued id (List.mem_append_left _ hold)
    · rcases List.mem_cons.1 hnew with rfl | hold
      · exact ha.issued _ (List.mem_append_left _ hid)
      · exact ha.issued id (List.mem_append_right _ hold)

/-- The next identity can be reserved. -/
theorem reserve (ha : h.TasksApart reserved) (htasks : g.tasks = h.tasks)
    (hnext : h.nextId < g.nextId) : g.TasksApart (h.nextId :: reserved) where
  distinct := by
    rw [htasks]
    refine List.nodup_middle.2 (List.nodup_cons.2 ⟨fun hmem => ?_, ha.distinct⟩)
    exact Nat.lt_irrefl _ (ha.issued _ hmem)
  issued id hmem := by
    rw [htasks] at hmem
    rcases List.mem_append.1 hmem with hold | hnew
    · exact (ha.issued id (List.mem_append_left _ hold)).trans hnext
    · rcases List.mem_cons.1 hnew with rfl | hold
      · exact hnext
      · exact (ha.issued id (List.mem_append_right _ hold)).trans hnext

/-- A reserved identity need not be used. -/
theorem release {id : Nat} (ha : h.TasksApart (id :: reserved)) : h.TasksApart reserved where
  distinct := (List.nodup_cons.1 (List.nodup_middle.1 ha.distinct)).2
  issued other hmem := by
    refine ha.issued other ?_
    rcases List.mem_append.1 hmem with hmem | hmem
    · exact List.mem_append_left _ hmem
    · exact List.mem_append_right _ (List.mem_cons_of_mem _ hmem)

/-- The order of reserved identities does not matter. -/
theorem perm {others : List Nat} (ha : h.TasksApart reserved) (hperm : reserved.Perm others) :
    h.TasksApart others where
  distinct := (hperm.append_left _).nodup_iff.1 ha.distinct
  issued id hmem := ha.issued id ((hperm.append_left _).mem_iff.2 hmem)

/-- A task may wait under a reserved identity. -/
theorem await {id : Nat} (ha : h.TasksApart (id :: reserved)) (due : Span) (work : Work) :
    (h.await id due work).TasksApart reserved where
  distinct := by
    have hdistinct := ha.distinct
    simpa [Host.await] using hdistinct
  issued other hmem := by
    refine ha.issued other ?_
    simpa [Host.await] using hmem

end TasksApart

namespace Watchful

/-- What keeps tasks, the runs with their deadlines and the watches over them keeps a host
watchful. -/
theorem frame {may : Effect → Prop} {others : List Nat} (hw : h.Watchful reserved)
    (hapart : g.TasksApart others) (hchanges : Changes may h g)
    (htasks : ∀ task ∈ g.tasks, task ∈ h.tasks)
    (hruns : ∀ user run, g.runs.find? user = some run →
      ∃ old, h.runs.find? user = some old ∧ run.scope = old.scope ∧ run.deadline = old.deadline)
    (hkept : ∀ user run, g.runs.find? user = some run → g.isCancelled run.scope = false →
      ∀ task ∈ h.tasks, task.work = .watchDeadline user run.id run.scope → task ∈ g.tasks) :
    g.Watchful others where
  toTasksApart := hapart
  moving task hmem patrol hwork := by
    have hmoving := hw.moving task (htasks task hmem) patrol hwork
    unfold period at hmoving ⊢
    rwa [hchanges.policies_eq]
  able task hmem huntracked := by
    rw [hchanges.sameBuild.timers]
    exact hw.able task (htasks task hmem) huntracked
  watching task hmem user id scope hwork := by
    obtain ⟨hid, hwatching⟩ := hw.watching task (htasks task hmem) user id scope hwork
    refine ⟨hid.trans_le hchanges.nextId_le, fun run hrun heq => ?_⟩
    obtain ⟨old, hold, hscope, hdeadline⟩ := hruns user run hrun
    rw [hscope, hdeadline]
    exact hwatching old hold ((Run.id_eq_of_scope hscope).symm.trans heq)
  watched htimers user run hrun halive := by
    obtain ⟨old, hold, hscope, -⟩ := hruns user run hrun
    have hbefore := isCancelled_mono (fun _ => hchanges.cancelled_kept) halive
    rw [hscope] at hbefore
    rw [hchanges.sameBuild.timers] at htimers
    obtain ⟨task, hmem, hwork⟩ := hw.watched htimers user old hold hbefore
    rw [← hscope, ← Run.id_eq_of_scope hscope] at hwork
    exact ⟨task, hkept user run hrun halive task hmem hwork, hwork⟩

/-- An entry keeps a host watchful. -/
theorem entry {may : Effect → Prop} (hw : h.Watchful reserved) (hentry : Entry h g)
    (hchanges : Changes may h g) : g.Watchful reserved := by
  refine hw.frame (hw.fewer ?_ hchanges.nextId_le) hchanges ?_ ?_ ?_
  · rw [hentry.tasks]
  · exact fun task hmem => hentry.tasks ▸ hmem
  · exact fun user run hrun => ⟨run, hentry.runs user run hrun, rfl, rfl⟩
  · exact fun _ _ _ _ task hmem _ => hentry.tasks.symm ▸ hmem

/-- A task that is not watched for a deadline may wait under a reserved identity. -/
theorem await {id : Nat} (hw : h.Watchful (id :: reserved)) (due : Span) {work : Work}
    (htracked : Task.isTracked ⟨id, due, work⟩ = true)
    (hmoving : ∀ patrol, work = .patrol patrol → 0 < (h.period patrol).nanos) :
    (h.await id due work).Watchful reserved where
  toTasksApart := hw.toTasksApart.await due work
  moving task hmem patrol hwork := by
    rcases List.mem_append.1 hmem with hmem | hmem
    · exact hw.moving task hmem patrol hwork
    · rw [List.mem_singleton.1 hmem] at hwork
      exact hmoving patrol hwork
  able task hmem huntracked := by
    rcases List.mem_append.1 hmem with hmem | hmem
    · exact hw.able task hmem huntracked
    · rw [List.mem_singleton.1 hmem, htracked] at huntracked
      cases huntracked
  watching task hmem user other scope hwork := by
    rcases List.mem_append.1 hmem with hmem | hmem
    · exact hw.watching task hmem user other scope hwork
    · rw [List.mem_singleton.1 hmem] at hwork
      dsimp only at hwork
      subst hwork
      cases htracked
  watched htimers user run hrun halive := by
    have hbefore : h.isCancelled run.scope = false := halive
    obtain ⟨task, hmem, hwork⟩ := hw.watched htimers user run hrun hbefore
    exact ⟨task, List.mem_append_left _ hmem, hwork⟩

/-- A reserved identity need not be used. -/
theorem release {id : Nat} (hw : h.Watchful (id :: reserved)) : h.Watchful reserved :=
  { hw with toTasksApart := hw.toTasksApart.release }

/-- A run that was recorded is watched, where tasks can wait for the clock. -/
theorem launched {user : String} {run : Run} (hw : h.Watchful reserved) (hid : run.id = h.nextId)
    {users : Table User} {journal : List Event} :
    (({ h with users, journal, runs := h.runs.insert user run, nextId := h.nextId + 1 } :
      Host).watchDeadline user run).Watchful reserved := by
  let begun : Host :=
    { h with users, journal, runs := h.runs.insert user run, nextId := h.nextId + 1 }
  have hbegun : begun.TasksApart reserved := hw.fewer (List.Sublist.refl _) (Nat.le_succ _)
  -- A task that waits was never for the new run, whose identity is new.
  have hwatching (task : Task) (hmem : task ∈ h.tasks) (name : String) (id : Nat) (scope : Scope)
      (hwork : task.work = .watchDeadline name id scope) : id < h.nextId + 1 ∧
        ∀ found, begun.runs.find? name = some found → found.id = id →
          found.scope = scope ∧ found.deadline = task.due := by
    obtain ⟨hold, hwatching⟩ := hw.watching task hmem name id scope hwork
    refine ⟨Nat.lt_succ_of_lt hold, fun found hfound heq => ?_⟩
    simp only [begun, Table.find?_insert] at hfound
    split_ifs at hfound
    · cases hfound
      omega
    · exact hwatching found hfound heq
  change (begun.watchDeadline user run).Watchful reserved
  unfold Host.watchDeadline
  split_ifs with htimers
  · have hapart := (hbegun.reserve (g := begun.fresh.2) rfl (Nat.lt_succ_self _)).await
      run.deadline (.watchDeadline user run.id run.scope)
    refine ⟨hapart, ?_, fun _ _ _ => htimers, ?_, ?_⟩
    · intro task hmem patrol hwork
      rcases List.mem_append.1 hmem with hmem | hmem
      · exact hw.moving task hmem patrol hwork
      · rw [List.mem_singleton.1 hmem] at hwork
        cases hwork
    · intro task hmem name id scope hwork
      rcases List.mem_append.1 hmem with hmem | hmem
      · obtain ⟨hold, hmatch⟩ := hwatching task hmem name id scope hwork
        exact ⟨Nat.lt_succ_of_lt hold, hmatch⟩
      · rw [List.mem_singleton.1 hmem] at hwork ⊢
        cases hwork
        refine ⟨by simp only [Host.await, fresh, begun]; omega, fun found hfound _ => ?_⟩
        have hself : begun.runs.find? user = some run := Table.find?_insert_self ..
        cases hself.symm.trans hfound
        exact ⟨rfl, rfl⟩
    · intro _ name found hfound halive
      simp only [Host.await, fresh, begun, Table.find?_insert] at hfound
      split_ifs at hfound with hname
      · cases hfound
        subst hname
        exact ⟨_, List.mem_append_right _ (List.mem_singleton_self _), rfl⟩
      · have hbefore : h.isCancelled found.scope = false := halive
        obtain ⟨task, hmem, hwork⟩ := hw.watched htimers name found hfound hbefore
        exact ⟨task, List.mem_append_left _ hmem, hwork⟩
  · exact ⟨hbegun.fewer (List.Sublist.refl _) le_rfl, hw.moving, hw.able, hwatching,
      fun hable => absurd hable htimers⟩

/-- A program that is started is watched. -/
theorem start (hw : h.Watchful reserved) (user program : String) :
    (h.start user program).2.Watchful reserved := by
  rcases h.start_cases user program with hentry | ⟨owner, run, -, -, hid, -, hstarted⟩
  · have hchanges : Changes (fun _ => True) h (h.start user program).2 :=
      changes_start trivial trivial program
    exact hw.entry hentry hchanges
  · rw [hstarted]
    exact hw.launched hid

/-- A statement that is counted leaves the deadline of its run. -/
theorem check (hw : h.Watchful reserved) (user : String) (statement : Statement) :
    (h.check user statement).2.Watchful reserved := by
  have hchanges : Changes (fun _ => True) h (h.check user statement).2 :=
    changes_check trivial trivial trivial statement
  rcases h.check_cases user statement with hentry | ⟨run, hfound, -, hcounted⟩
  · exact hw.entry hentry hchanges
  · obtain ⟨users, journal, htouch⟩ :=
      { h with runs := h.runs.insert user (run.counting statement) }.touch_eq user
    rw [hcounted, htouch] at hchanges ⊢
    refine hw.frame (hw.fewer (List.Sublist.refl _) le_rfl) hchanges (fun _ hmem => hmem) ?_
      (fun _ _ _ _ _ hmem _ => hmem)
    intro name found hrun
    simp only [Table.find?_insert] at hrun
    split_ifs at hrun with hname
    · cases hrun
      exact ⟨run, hname ▸ hfound, rfl, rfl⟩
    · exact ⟨found, hrun, rfl, rfl⟩

/-! ## Firing -/

/-- A task that watches no run that goes on may go. -/
theorem dismiss {may : Effect → Prop} (hw : h.Watchful reserved) {task : Task}
    (hmem : task ∈ h.tasks) {user : String} {id : Nat} {scope : Scope}
    (hwork : task.work = .watchDeadline user id scope) (hchanges : Changes may h g)
    (htasks : g.tasks = (h.dropTask task.id).tasks)
    (hruns : ∀ name run, g.runs.find? name = some run → h.runs.find? name = some run)
    (hleft : ∀ run, g.runs.find? user = some run → run.id = id → run.scope = scope →
      g.isCancelled run.scope = true) : g.Watchful reserved := by
  have hsub : g.tasks.Sublist h.tasks := htasks ▸ List.filter_sublist
  refine hw.frame (hw.fewer hsub hchanges.nextId_le) hchanges (fun _ hother => hsub.subset hother)
    (fun name run hrun => ⟨run, hruns name run hrun, rfl, rfl⟩) ?_
  intro name run hrun halive other hother hwatch
  rw [htasks]
  refine List.mem_filter.2 ⟨hother, ?_⟩
  rw [decide_eq_true_eq]
  intro hid
  cases hw.eq_of_id hother hmem hid
  rw [hwork] at hwatch
  cases hwatch
  rw [hleft run hrun rfl rfl] at halive
  cases halive

/-- What fires for a watched deadline keeps a host watchful. -/
theorem fire_watch (hw : h.Watchful reserved) {task : Task} (hmem : task ∈ h.tasks)
    (huntracked : task.isTracked = false) : (h.fire task).Watchful reserved := by
  have hdropped : Changes (fun _ => True) h (h.dropTask task.id) := .quiet (h.quiet_dropTask _)
  obtain ⟨user, id, scope, hwork, ⟨run, hfound, -, -, hfire⟩ | ⟨hleft, hfire⟩⟩ :=
    fire_cases (h := h) huntracked
  · have hended : Changes (fun _ => True) (h.dropTask task.id)
        ((h.dropTask task.id).endRun user run .timeout) :=
      changes_endRun (h := h.dropTask task.id) trivial hfound run rfl .timeout
    rw [hfire]
    refine hw.dismiss hmem hwork (hdropped.trans hended) (by simp [endRun, emit]) ?_ ?_
    · intro name found hrun
      simp only [endRun, emit, runs_cancel, Table.find?_erase] at hrun
      split_ifs at hrun
      exact hrun
    · intro found hrun
      simp [endRun, emit] at hrun
  · rw [hfire]
    refine hw.dismiss hmem hwork hdropped rfl (fun _ _ hrun => hrun) fun found hrun hid hscope => ?_
    rcases hleft with hcancelled | hdiffers
    · rw [hscope]
      exact hcancelled
    · exact absurd hid (hdiffers found hrun)

/-- A tracked task that no longer waits leaves its identity. -/
theorem dropTask (hw : h.Watchful reserved) {task : Task} (hmem : task ∈ h.tasks)
    (htracked : task.isTracked = true) : (h.dropTask task.id).Watchful (task.id :: reserved) := by
  have hdropped : Changes (fun _ => True) h (h.dropTask task.id) := .quiet (h.quiet_dropTask _)
  refine hw.frame (hw.toTasksApart.dropped hmem) hdropped
    (fun _ hother => (List.mem_filter.1 hother).1) (fun _ run hrun => ⟨run, hrun, rfl, rfl⟩) ?_
  intro name run _ _ other hother hwatch
  refine List.mem_filter.2 ⟨hother, ?_⟩
  rw [decide_eq_true_eq]
  intro hid
  cases hw.eq_of_id hother hmem hid
  simp [Task.isTracked, hwatch] at htracked

end Watchful

/-- A patrol that moves on waits for a later point. -/
theorem lt_nextDue {due now period : Span} (hperiod : 0 < period.nanos) :
    due < nextDue due now period := by
  change due.nanos < (nextDue due now period).nanos
  unfold nextDue
  split_ifs <;> dsimp only <;> omega

/-- A patrol makes some cycles, as far as it was behind, and waits for a point ahead of the
clock. -/
theorem patrolFrom_eq (h : Host) (id : Nat) (patrol : Patrol) (cycles : Nat) (due : Span)
    (hperiod : 0 < (h.period patrol).nanos) (hcycles : h.now.nanos < due.nanos + cycles) :
    ∃ after next, Entry h after ∧ Changes (· ≠ .ticked) h after ∧ h.now < next ∧
      patrolFrom id patrol cycles due h = after.await id next (.patrol patrol) := by
  induction cycles generalizing due h with
  | zero => exact ⟨h, due, .refl h, .refl h, hcycles, rfl⟩
  | succ cycles ih =>
    have hentry := cycling_entry.patrolCycle h patrol
    have hfiring : Firing (Changes (· ≠ .ticked)) :=
      firing_changes (by simp) (by simp) (by simp) (by simp)
    have hchanges := hfiring.patrolCycle h patrol
    have hlater : due < nextDue due h.now (h.period patrol) := lt_nextDue hperiod
    have hnow : (h.patrolCycle patrol).now = h.now := by
      rw [now, hchanges.clock_eq (by simp), now]
    simp only [patrolFrom]
    split_ifs with hbehind
    · obtain ⟨after, next, hmore, hmoved, hahead, heq⟩ :=
        ih (h.patrolCycle patrol) (nextDue due h.now (h.period patrol))
          (by unfold period at hperiod ⊢; rwa [hchanges.policies_eq])
          (by
            change due.nanos < _ at hlater
            rw [hnow]
            omega)
      exact ⟨after, next, hentry.trans hmore, hchanges.trans hmoved, hnow ▸ hahead, heq⟩
    · refine ⟨_, _, hentry, hchanges, ?_, rfl⟩
      rw [Span.ceilMillis_le_iff] at hbehind
      exact Nat.lt_of_not_le hbehind

/-- What a patrol leaves when it fires: another wait under the same identity, ahead of the clock. -/
theorem fire_patrol (hw : h.Watchful reserved) {task : Task} (hmem : task ∈ h.tasks)
    {patrol : Patrol} (hwork : task.work = .patrol patrol) :
    ∃ after next, Entry (h.dropTask task.id) after ∧
      Changes (· ≠ .ticked) (h.dropTask task.id) after ∧ h.now < next ∧
      h.fire task = after.await task.id next (.patrol patrol) := by
  simp only [fire, hwork]
  refine (h.dropTask task.id).patrolFrom_eq task.id patrol _ task.due
    (hw.moving task hmem patrol hwork) ?_
  change h.now.nanos < _
  omega

/-- Who fires leaves the queue, and a patrol waits again under its identity, ahead of the clock. -/
theorem tasks_fire (hw : h.Watchful reserved) {task : Task} (hmem : task ∈ h.tasks) :
    (∀ patrol, task.work ≠ .patrol patrol) ∧
        (h.fire task).tasks = (h.dropTask task.id).tasks ∨
      ∃ patrol next, task.work = .patrol patrol ∧ h.now < next ∧
        (h.fire task).tasks =
          (h.dropTask task.id).tasks ++ [⟨task.id, next, .patrol patrol⟩] := by
  cases hwork : task.work with
  | watchDeadline user id scope =>
    refine .inl ⟨by simp, ?_⟩
    have huntracked : task.isTracked = false := by simp [Task.isTracked, hwork]
    obtain ⟨_, _, _, -, ⟨run, -, -, -, hfire⟩ | ⟨-, hfire⟩⟩ :=
      fire_cases (h := h) huntracked
    · simp [hfire, endRun, emit]
    · rw [hfire]
  | patrol patrol =>
    obtain ⟨after, next, hentry, -, hnext, hfire⟩ := fire_patrol hw hmem hwork
    exact .inr ⟨patrol, next, rfl, hnext, by rw [hfire, await, hentry.tasks]⟩
  | sleep cancellable =>
    refine .inl ⟨by simp, ?_⟩
    simp only [fire, hwork]
    exact (entry_closeScope _ _).tasks

/-- When shutdown began, the cancellable tasks end. -/
theorem tasks_endCancelled (h : Host) : h.endCancelled.tasks =
    if h.isShuttingDown then h.tasks.filter fun task => !task.isCancellable else h.tasks := by
  unfold endCancelled
  split_ifs
  · exact tasks_emitAll _ _
  · rfl

namespace Watchful

/-- A task that fires keeps a host watchful. -/
theorem fire (hw : h.Watchful reserved) {task : Task} (hmem : task ∈ h.tasks) :
    (h.fire task).Watchful reserved := by
  cases hwork : task.work with
  | watchDeadline user id scope => exact hw.fire_watch hmem (by simp [Task.isTracked, hwork])
  | patrol patrol =>
    obtain ⟨after, next, hentry, hchanges, -, hfire⟩ := fire_patrol hw hmem hwork
    have hdropped := hw.dropTask hmem (by simp [Task.isTracked, hwork])
    rw [hfire]
    refine (hdropped.entry hentry hchanges).await next (by rfl) fun other hother => ?_
    cases hother
    have hmoving := hw.moving task hmem patrol hwork
    unfold period at hmoving ⊢
    rwa [hchanges.policies_eq]
  | sleep cancellable =>
    have hdropped := hw.dropTask hmem (by simp [Task.isTracked, hwork])
    have hclosed : Changes (fun _ => True) (h.dropTask task.id)
        ((h.dropTask task.id).closeScope task.id) := .quiet (quiet_closeScope _ _)
    simp only [Host.fire, hwork]
    exact (hdropped.entry (entry_closeScope _ _) hclosed).release

/-- Cancelled tasks end, and the host stays watchful. -/
theorem endCancelled (hw : h.Watchful reserved) : h.endCancelled.Watchful reserved := by
  have hended : Changes (fun _ => True) h h.endCancelled := .quiet h.quiet_endCancelled
  have hsub : h.endCancelled.tasks.Sublist h.tasks := by
    rw [tasks_endCancelled]
    split_ifs
    · exact List.filter_sublist
    · exact List.Sublist.refl _
  refine hw.frame (hw.fewer hsub hended.nextId_le) hended (fun _ hmem => hsub.subset hmem) ?_ ?_
  · intro user run hrun
    rw [h.quiet_endCancelled.runs] at hrun
    exact ⟨run, hrun, rfl, rfl⟩
  · intro user run _ _ task hmem hwork
    rw [tasks_endCancelled]
    split_ifs
    · exact List.mem_filter.2 ⟨hmem, by simp [Task.isCancellable, hwork]⟩
    · exact hmem

end Watchful

/-- Whatever fires, and whenever, a watchful host stays watchful. -/
theorem timing_watchful (reserved : List Nat) :
    Timing fun h g => h.Watchful reserved → g.Watchful reserved where
  refl _ hw := hw
  trans hg hk hw := hk (hg hw)
  ticked {h clock} hle hw := by
    have hticked : Changes (fun _ => True) h { h with clock } := .single trivial (.ticked hle)
    exact hw.frame (hw.fewer (List.Sublist.refl _) le_rfl) hticked (fun _ hmem => hmem)
      (fun _ run hrun => ⟨run, hrun, rfl, rfl⟩) (fun _ _ _ _ _ hmem _ => hmem)
  looked hle hw := { hw with }
  noted h event hnote hw := { hw with }
  dismissed h hw := hw.endCancelled
  fired hmem _ hw := hw.fire hmem

/-! ## Enough steps -/

/-- How far a task is from the first point after a limit. -/
def headroom (limit : Nat) (task : Task) : Nat :=
  (Span.ofMillis limit).nanos + 1 - task.due.nanos

/-- What is added up by parts. -/
theorem total_append (items more : List Nat) :
    total (items ++ more) = total items + total more := by
  induction items with
  | nil => simp [total]
  | cons item rest ih => simp [total, ih, Nat.add_assoc]

/-- One of several numbers is at most their sum. -/
theorem le_total_of_mem {item : Nat} {items : List Nat} (hmem : item ∈ items) :
    item ≤ total items := by
  induction items with
  | nil => cases hmem
  | cons first rest ih =>
    rcases List.mem_cons.1 hmem with rfl | hmem
    · exact Nat.le_add_right _ _
    · exact (ih hmem).trans (Nat.le_add_left _ _)

/-- What remains without some of the tasks, among them a given one, is less by that one at least. -/
theorem total_dropTask (limit : Nat) {tasks : List Task} {task : Task} (hmem : task ∈ tasks) :
    total ((tasks.filter fun other => other.id ≠ task.id).map (headroom limit)) +
      headroom limit task ≤ total (tasks.map (headroom limit)) := by
  induction tasks with
  | nil => cases hmem
  | cons first rest ih =>
    have hfewer : total ((rest.filter fun other => other.id ≠ task.id).map (headroom limit)) ≤
        total (rest.map (headroom limit)) := by
      clear ih hmem
      induction rest with
      | nil => exact le_rfl
      | cons second rest ih =>
        rw [List.filter_cons]
        split_ifs <;> simp only [List.map_cons, total] <;> omega
    rcases List.mem_cons.1 hmem with rfl | hmem
    · rw [List.filter_cons_of_neg (by simp)]
      simp only [List.map_cons, total]
      omega
    · have hrest := ih hmem
      rw [List.filter_cons]
      split_ifs <;> simp only [List.map_cons, total] <;> omega

/-- A task that fires by a limit brings the host closer to the point where nothing is left to
fire. -/
theorem firingBound_fire_lt (hw : h.Watchful reserved) {task : Task} (hmem : task ∈ h.tasks)
    (hdue : task.dueMillis ≤ h.clock) {limit : Nat} (hlimit : task.dueMillis ≤ limit) :
    (h.fire task).firingBound limit < h.firingBound limit := by
  rw [Task.dueMillis, Span.ceilMillis_le_iff] at hdue hlimit
  have hdrop := total_dropTask limit hmem
  have hahead : 0 < headroom limit task := by
    change task.due.nanos ≤ _ at hlimit
    unfold headroom
    omega
  rcases tasks_fire hw hmem with ⟨-, htasks⟩ | ⟨patrol, next, -, hnext, htasks⟩
  · rw [firingBound, htasks]
    exact Nat.lt_of_lt_of_le (Nat.lt_add_of_pos_right hahead) hdrop
  · -- The patrol waits again, but for a point ahead of the clock, which has passed the old one.
    have hless : headroom limit ⟨task.id, next, .patrol patrol⟩ < headroom limit task := by
      change task.due.nanos ≤ h.now.nanos at hdue
      change h.now.nanos < next.nanos at hnext
      unfold headroom at hahead ⊢
      dsimp only
      omega
    have hsplit : (h.fire task).firingBound limit =
        total ((h.dropTask task.id).tasks.map (headroom limit)) +
          headroom limit ⟨task.id, next, .patrol patrol⟩ := by
      rw [firingBound, htasks, List.map_append, total_append]
      rfl
    rw [hsplit]
    exact Nat.lt_of_lt_of_le (Nat.add_lt_add_left hless _) hdrop

/-- When nothing fires first, nothing is due. -/
theorem firstDue?_eq_none {limit : Nat} {tasks : List Task} (hnone : firstDue? limit tasks = none) :
    ∀ task ∈ tasks, limit < task.dueMillis := by
  induction tasks with
  | nil => exact fun _ hmem => by cases hmem
  | cons first rest ih =>
    simp only [firstDue?] at hnone
    cases hrest : firstDue? limit rest with
    | none =>
      rw [hrest] at hnone
      dsimp only at hnone
      split_ifs at hnone with hdue
      intro task hmem
      rcases List.mem_cons.1 hmem with rfl | hmem
      · exact Nat.lt_of_not_le hdue
      · exact ih hrest task hmem
    | some later =>
      rw [hrest] at hnone
      dsimp only at hnone
      split_ifs at hnone

/-- With enough steps, everything fires that is due by a limit. -/
theorem fireUpTo_done (hw : h.Watchful reserved) {limit steps : Nat}
    (hsteps : h.firingBound limit ≤ steps) :
    ∀ task ∈ (fireUpTo limit steps h).tasks, limit < task.dueMillis := by
  induction steps generalizing h with
  | zero =>
    intro task hmem
    -- Without steps there is no headroom left, and what is due has some.
    have hnone : headroom limit task ≤ 0 :=
      (le_total_of_mem (List.mem_map_of_mem hmem)).trans hsteps
    refine Nat.lt_of_not_le fun hdue => ?_
    rw [Task.dueMillis, Span.ceilMillis_le_iff] at hdue
    change task.due.nanos ≤ _ at hdue
    unfold headroom at hnone
    omega
  | succ steps ih =>
    unfold fireUpTo
    cases hfirst : firstDue? limit h.tasks with
    | none => exact firstDue?_eq_none hfirst
    | some task =>
      obtain ⟨hmem, hdue⟩ := firstDue?_spec hfirst
      have hticked := (timing_watchful reserved).ticked (le_max_left h.clock task.dueMillis) hw
      refine ih (hticked.fire hmem) ?_
      have hless := firingBound_fire_lt hticked hmem (le_max_right _ _) hdue
      have hsame : firingBound { h with clock := max h.clock task.dueMillis } limit =
          h.firingBound limit := rfl
      omega

/-- Once everything has fired that is due by a limit, nothing due by it is left. -/
theorem fireDue_done (hw : h.Watchful reserved) (limit : Nat) :
    ∀ task ∈ (h.fireDue limit).tasks, limit < task.dueMillis :=
  fireUpTo_done hw le_rfl

/-! ## Spawning -/

namespace Watchful

/-- A scope that is opened under the background scope has an identity for a task. -/
theorem openScope (hw : h.Watchful reserved) :
    h.openScope.2.Watchful (h.openScope.1 :: reserved) := by
  have hopened : Changes (fun _ => True) h h.openScope.2 := .quiet h.quiet_openScope
  have htasks : h.openScope.2.tasks = h.tasks := h.entry_childScope.tasks
  have hnext : h.nextId < h.openScope.2.nextId := by
    unfold Host.openScope fresh
    dsimp only
    split_ifs <;> exact Nat.lt_succ_self _
  refine hw.frame (hw.reserve htasks hnext) hopened (fun _ hmem => htasks ▸ hmem) ?_
    (fun _ _ _ _ _ hmem _ => htasks.symm ▸ hmem)
  intro user run hrun
  rw [h.quiet_openScope.runs] at hrun
  exact ⟨run, hrun, rfl, rfl⟩

/-- Patrols that are announced have their identities. -/
theorem announce (hw : h.Watchful reserved) (patrols : List Patrol) :
    (Host.announce patrols h).2.Watchful
      ((Host.announce patrols h).1.map Prod.fst ++ reserved) := by
  induction patrols generalizing h reserved with
  | nil => exact hw
  | cons patrol rest ih =>
    have hspawned : (h.emit (.taskSpawned patrol.taskName)).Watchful reserved := { hw with }
    have hrest := ih hspawned.openScope
    exact { hrest with toTasksApart := hrest.toTasksApart.perm List.perm_middle }

/-- A patrol that begins waits under its identity, or not at all. -/
theorem beginPatrol {id : Nat} (hw : h.Watchful (id :: reserved)) (patrol : Patrol) :
    (h.beginPatrol id patrol).Watchful reserved := by
  have hclosed : Changes (fun _ => True) h (h.closeScope id) := .quiet (h.quiet_closeScope id)
  have hended : (h.closeScope id).Watchful reserved :=
    hw.release.entry (h.entry_closeScope id) hclosed
  simp only [Host.beginPatrol]
  split
  · exact hended
  · split_ifs with hperiod
    · exact hended
    · exact { hw.release with }
    · have hstarted : (h.emit (.patrolStarted patrol (h.period patrol).seconds)).Watchful
          (id :: reserved) := { hw with }
      refine hstarted.await _ (by rfl) fun other hother => ?_
      cases hother
      exact Nat.pos_of_ne_zero hperiod

/-- Patrols that begin one after the other wait under their identities, or not at all. -/
theorem beginPatrols {spawned : List (Nat × Patrol)}
    (hw : h.Watchful (spawned.map Prod.fst ++ reserved)) :
    (spawned.foldl (fun k entry => k.beginPatrol entry.1 entry.2) h).Watchful reserved := by
  induction spawned generalizing h with
  | nil => exact hw
  | cons first rest ih => exact ih (hw.beginPatrol first.2)

/-- Spawning the patrols keeps a host watchful. -/
theorem spawnPatrols (hw : h.Watchful []) : h.spawnPatrols.Watchful [] :=
  (timing_watchful []).settle _
    (beginPatrols ((timing_watchful _).runReady _ (hw.announce patrols)))

/-- Spawning a sleeper keeps a host watchful. -/
theorem spawnSleeper (hw : h.Watchful []) (millis : Nat) (cancellable : Bool) :
    (h.spawnSleeper millis cancellable).Watchful [] := by
  have hwaits {opened : Host} {id : Nat} (hopened : opened.Watchful [id]) (due : Span) :
      (opened.runReady.await id due (.sleep cancellable)).settle.Watchful [] := by
    have hready := (timing_watchful _).runReady _ hopened
    exact (timing_watchful []).settle _ (hready.await due (by rfl) (by simp))
  cases cancellable with
  | false =>
    have hnoted : (h.emit (.taskSpawned "plain")).Watchful [] := { hw with }
    have hfresh : Changes (fun _ => True) h (h.emit (.taskSpawned "plain")).fresh.2 :=
      .quiet ((h.quiet_emit _).trans (quiet_fresh _))
    have hopened : (h.emit (.taskSpawned "plain")).fresh.2.Watchful [h.nextId] :=
      hw.frame (hw.reserve rfl (Nat.lt_succ_self _)) hfresh (fun _ hmem => hmem)
        (fun _ run hrun => ⟨run, hrun, rfl, rfl⟩) (fun _ _ _ _ _ hmem _ => hmem)
    exact hwaits hopened _
  | true =>
    have hnoted : (h.emit (.taskSpawned "cancellable")).Watchful [] := { hw with }
    simp only [Host.spawnSleeper, if_true, Bool.true_and]
    split_ifs
    · exact (timing_watchful []).settle _
        ((timing_watchful []).runReady _ hnoted.openScope.release)
    · exact hwaits hnoted.openScope _

/-! ## Histories -/

/-- Whatever is done to a watchful host, it stays watchful. -/
theorem perform (hw : h.Watchful []) (action : Action) (hserved : h.served ≤ h.clock) :
    (h.perform action).Watchful [] := by
  have hchanges := h.perform_changes action hserved
  cases action with
  | start user program => exact hw.start user program
  | check user statement => exact hw.check user statement
  | spawnPatrols => exact hw.spawnPatrols
  | spawnSleeper millis cancellable => exact hw.spawnSleeper millis cancellable
  | shutdown millis =>
    refine (timing_watchful []).shutdown (fun k hk => ?_) h millis hserved hw
    have hcancelled : Changes (fun _ => True) k (k.cancel .background) :=
      .single trivial (.cancelled (.inr rfl))
    exact hk.entry (k.entry_cancel _) hcancelled
  | jump millis => exact (timing_watchful []).jump h millis hw
  | advance millis => exact (timing_watchful []).advance h millis hw
  | sleep millis => exact (timing_watchful []).sleep h millis hw
  | _ => exact hw.entry (h.entry_perform rfl) hchanges

/-- In the empty host no task waits and no run is to be watched. -/
theorem empty (policies : Policies) (sampler : Sampler) (timers : Bool)
    (clockEnd : Span) : (Host.empty policies sampler timers clockEnd).Watchful [] where
  distinct := List.nodup_nil
  issued _ hmem := by cases hmem
  moving _ hmem := by cases hmem
  able _ hmem := by cases hmem
  watching _ hmem := by cases hmem
  watched _ user run hrun := by simp [Host.empty] at hrun

end Watchful

/-- Every reachable host is watchful. -/
theorem IsReachable.watchful (hreach : h.IsReachable) : h.Watchful [] := by
  obtain ⟨policies, sampler, timers, start, actions, hbuilt, rfl⟩ := hreach
  have hquiet := hbuilt.quiet
  have hserved : start.served ≤ start.clock := hquiet.served le_rfl
  have hstart : start.Watchful [] :=
    (Watchful.empty policies sampler timers _).entry hbuilt.entry
      (Changes.quiet hquiet : Changes (fun _ => True) _ _)
  clear hbuilt hquiet
  induction actions generalizing start with
  | nil => exact hstart
  | cons action rest ih =>
    exact ih _ ((start.perform_changes action hserved).served_le hserved)
      (hstart.perform action hserved)

end Host

end Steward
