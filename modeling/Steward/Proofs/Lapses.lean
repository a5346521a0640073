import Steward.Proofs.Deadlines

/-!
# Time in which deadlines pass

As long as no patrol fires, time does little: sleepers end, and runs end at their deadlines. What is
left of each user's run then depends on that run alone, and what waits depends on what waited.
-/

namespace Steward

/-- A run without its identity. -/
def Run.anonymous (run : Run) : Run := { run with id := 0 }

namespace Host

/-- What there is to see of a user's run from outside: all but its identity, and whether its scope
was cancelled. -/
def outline (h : Host) (name : String) : Option (Run × Bool) :=
  (h.runs.find? name).map fun run => (run.anonymous, h.isCancelled run.scope)

/-- Whether no patrol fires up to a time in milliseconds, because shutdown ends them all or because
none is due. -/
def PatrolsRest (h : Host) (limit : Nat) : Prop :=
  h.isShuttingDown = true ∨
    ∀ task ∈ h.tasks, ∀ patrol, task.work = .patrol patrol → limit < task.dueMillis

/-- Some of what is due by a limit has fired, and no patrol. -/
structure Lapses (limit : Nat) (h g : Host) : Prop extends SameBuild h g where
  users : g.users = h.users
  sessions : g.sessions = h.sessions
  permits : g.permits = h.permits
  roots : ∀ id, .root id ∈ g.cancelled ↔ .root id ∈ h.cancelled
  fewer : ∀ task ∈ g.tasks, task ∈ h.tasks
  tasks : g.tasks.filter (fun task => limit < task.dueMillis) =
    h.tasks.filter fun task => limit < task.dueMillis
  runs : ∀ name, g.outline name = h.outline name ∨
    g.outline name = none ∧ h.timers = true ∧
      ∃ run, h.outline name = some (run, false) ∧ run.deadline ≤ .ofMillis limit

variable {reserved : List Nat} {limit : Nat} {h g k : Host}

/-- Quiet changes leave the outline of every run alone. -/
theorem Quiet.outline_eq (hquiet : Quiet h g) (name : String) :
    g.outline name = h.outline name := by
  have hcancelled (scope : Scope) : g.isCancelled scope = h.isCancelled scope := by
    cases scope <;> simp [isCancelled, hquiet.cancelled]
  simp only [outline, hquiet.runs, hcancelled]

namespace Lapses

/-- Nothing that is governed changed. -/
theorem of_quiet (hquiet : Quiet h g)
    (hfewer : ∀ task ∈ g.tasks, task ∈ h.tasks)
    (htasks : g.tasks.filter (fun task => limit < task.dueMillis) =
      h.tasks.filter fun task => limit < task.dueMillis) : Lapses limit h g where
  toSameBuild := hquiet.toSameBuild
  users := hquiet.users
  sessions := hquiet.sessions
  permits := hquiet.permits
  roots id := by rw [hquiet.cancelled]
  fewer := hfewer
  tasks := htasks
  runs name := .inl (hquiet.outline_eq name)

/-- One thing after another. -/
protected theorem trans (hg : Lapses limit h g) (hk : Lapses limit g k) : Lapses limit h k where
  toSameBuild := hg.toSameBuild.trans hk.toSameBuild
  users := hk.users.trans hg.users
  sessions := hk.sessions.trans hg.sessions
  permits := hk.permits.trans hg.permits
  roots id := (hk.roots id).trans (hg.roots id)
  fewer task hmem := hg.fewer task (hk.fewer task hmem)
  tasks := hk.tasks.trans hg.tasks
  runs name := by
    rcases hk.runs name with hlater | ⟨hgone, htimers, run, hbefore, hdeadline⟩
    · rw [hlater]
      exact hg.runs name
    · rcases hg.runs name with hsame | ⟨hnone, -⟩
      · exact .inr ⟨hgone, hg.timers ▸ htimers, run, hsame ▸ hbefore, hdeadline⟩
      · rw [hnone] at hbefore
        cases hbefore

end Lapses

/-- Without a task that is due, the tasks beyond the limit are the same. -/
theorem TasksApart.filter_dropTask (ha : h.TasksApart reserved) {task : Task}
    (hmem : task ∈ h.tasks) (hdue : task.dueMillis ≤ limit) :
    (h.dropTask task.id).tasks.filter (fun other => limit < other.dueMillis) =
      h.tasks.filter fun other => limit < other.dueMillis := by
  rw [dropTask, List.filter_filter]
  refine List.filter_congr fun other hother => ?_
  by_cases hid : other.id = task.id
  · rw [ha.eq_of_id hother hmem hid]
    simp [Nat.not_lt.2 hdue]
  · simp [hid]

/-- The end of a run leaves what is settled when a host is built. -/
theorem sameBuild_endRun (h : Host) (user : String) (run : Run) (reason : StopReason) :
    SameBuild h (h.endRun user run reason) := by
  constructor <;> simp [endRun, emit]

/-- The end of a run cancels no root. -/
theorem root_mem_endRun (h : Host) (user : String) (run : Run) (reason : StopReason) (id : Nat) :
    .root id ∈ (h.endRun user run reason).cancelled ↔ .root id ∈ h.cancelled := by
  simp [endRun, emit, Run.scope]

/-- The end of a run cancels no other scope. -/
theorem isCancelled_endRun (h : Host) (user : String) (run : Run) (reason : StopReason)
    {scope : Scope} (hother : scope ≠ run.scope) :
    (h.endRun user run reason).isCancelled scope = h.isCancelled scope := by
  have hmem : scope ∈ (h.endRun user run reason).cancelled ↔ scope ∈ h.cancelled := by
    simp [endRun, emit, hother]
  rw [Bool.eq_iff_iff, isCancelled_iff, isCancelled_iff, hmem]
  simp only [root_mem_endRun]

/-- The run that ends is gone, and whoever else's run stays as it was. -/
theorem RunsOwned.outline_endRun (ho : h.RunsOwned) {user : String} {run counted : Run}
    (hfound : h.runs.find? user = some run) (hscope : counted.scope = run.scope)
    (reason : StopReason) (name : String) :
    (h.endRun user counted reason).outline name =
      if name = user then none else h.outline name := by
  have hruns : (h.endRun user counted reason).runs = h.runs.erase user := by simp [endRun, emit]
  rw [outline, hruns, Table.find?_erase, outline]
  split_ifs with hname
  · rfl
  · cases hother : h.runs.find? name with
    | none => rfl
    | some twin =>
      have hapart : twin.scope ≠ counted.scope := by
        rw [hscope]
        exact fun hsame => hname (ho.apart name user twin run hother hfound
          (Run.id_eq_of_scope hsame))
      rw [Option.map_some, Option.map_some, isCancelled_endRun _ _ _ _ hapart]

/-- A task that fires and is no patrol ends at most a run whose deadline has passed. -/
theorem Lapses.fire (hw : h.Watchful reserved) (ho : h.RunsOwned) {task : Task}
    (hmem : task ∈ h.tasks) (hdue : task.dueMillis ≤ limit)
    (hpatrol : ∀ patrol, task.work ≠ .patrol patrol) : Lapses limit h (h.fire task) := by
  have hdropped : Lapses limit h (h.dropTask task.id) :=
    .of_quiet (h.quiet_dropTask task.id) (fun _ hother => (List.mem_filter.1 hother).1)
      (hw.filter_dropTask hmem hdue)
  cases hwork : task.work with
  | patrol patrol => exact absurd hwork (hpatrol patrol)
  | sleep cancellable =>
    have hclosed := entry_closeScope (h.dropTask task.id) task.id
    simp only [Host.fire, hwork]
    refine hdropped.trans (.of_quiet (quiet_closeScope _ _) ?_ ?_)
    · rw [hclosed.tasks]
      exact fun _ hother => hother
    · rw [hclosed.tasks]
  | watchDeadline user id scope =>
    have huntracked : task.isTracked = false := by simp [Task.isTracked, hwork]
    obtain ⟨name, other, place, hwatch, ⟨run, hfound, hid, halive, hfire⟩ | ⟨-, hfire⟩⟩ :=
      fire_cases (h := h) huntracked
    · rw [hwork] at hwatch
      cases hwatch
      obtain ⟨hscope, hdeadline⟩ := (hw.watching task hmem user id scope hwork).2 run hfound hid
      have hended := (ho.quiet (h.quiet_dropTask task.id)).outline_endRun hfound rfl .timeout
      rw [hfire]
      refine hdropped.trans ⟨sameBuild_endRun _ _ _ _, by simp [endRun, emit],
        by simp [endRun, emit], by simp [endRun, emit], root_mem_endRun _ _ _ _, ?_, ?_, ?_⟩
      · simp [endRun, emit]
      · simp [endRun, emit]
      · intro other
        rw [hended]
        split_ifs with hother
        · subst hother
          have hbefore : (h.dropTask task.id).outline other = some (run.anonymous, false) := by
            have hopen : (h.dropTask task.id).isCancelled run.scope = false := by
              rw [hscope]
              exact halive
            have hsame : (h.dropTask task.id).runs.find? other = some run := hfound
            rw [outline, hsame, Option.map_some, hopen]
          refine .inr ⟨rfl, hw.able task hmem huntracked, _, hbefore, ?_⟩
          have hpassed := Span.ceilMillis_le_iff.1 hdue
          rwa [← hdeadline] at hpassed
        · exact .inl rfl
    · rw [hfire]
      exact hdropped

/-- Where no patrol is due, only deadlines pass while tasks fire. -/
theorem lapses_fireUpTo (hw : h.Watchful reserved) (ho : h.RunsOwned)
    (hrest : ∀ task ∈ h.tasks, ∀ patrol, task.work = .patrol patrol → limit < task.dueMillis)
    (steps : Nat) : Lapses limit h (fireUpTo limit steps h) := by
  induction steps generalizing h with
  | zero => exact .of_quiet (.refl h) (fun _ hmem => hmem) rfl
  | succ steps ih =>
    unfold fireUpTo
    cases hfirst : firstDue? limit h.tasks with
    | none => exact .of_quiet (.refl h) (fun _ hmem => hmem) rfl
    | some task =>
      obtain ⟨hmem, hdue⟩ := firstDue?_spec hfirst
      let ticked : Host := { h with clock := max h.clock task.dueMillis }
      have hticked : Changes (fun _ => True) h ticked :=
        .single trivial (.ticked (le_max_left _ _))
      have hfiring : Firing (Changes fun _ => True) :=
        firing_changes (by simp) trivial (by simp) (by simp)
      have hw' : ticked.Watchful reserved := (timing_watchful _).ticked (le_max_left _ _) hw
      have ho' := ho.changes hticked
      have hfired : Changes (fun _ => True) ticked (ticked.fire task) :=
        hfiring.fire hmem (le_max_right _ _)
      have hlapse : Lapses limit ticked (ticked.fire task) :=
        .fire hw' ho' hmem hdue fun patrol hwork =>
          absurd hdue (Nat.not_le.2 (hrest task hmem patrol hwork))
      -- No bound of a lapse speaks of the clock, so moving it up to the task does not show.
      have hstep : Lapses limit h (ticked.fire task) :=
        { hlapse with runs := hlapse.runs }
      exact hstep.trans (ih (hw'.fire hmem) (ho'.changes hfired)
        fun other hother => hrest other (hstep.fewer other hother))

/-- Whether a run goes on when time has passed up to a limit in milliseconds: it is not watched, was
cancelled before, or has its deadline later. -/
def outlasts (timers : Bool) (limit : Nat) (seen : Run × Bool) : Bool :=
  !timers || seen.2 || decide (limit < seen.1.deadline.ceilMillis)

/-- Time has passed up to a limit, and only deadlines passed. -/
structure Lapsed (limit : Nat) (h g : Host) : Prop extends SameBuild h g where
  clock : g.clock = limit
  users : g.users = h.users
  sessions : g.sessions = h.sessions
  permits : g.permits = h.permits
  roots : ∀ id, .root id ∈ g.cancelled ↔ .root id ∈ h.cancelled
  tasks : g.tasks = (if h.isShuttingDown then h.tasks.filter fun task => !task.isCancellable
    else h.tasks).filter fun task => limit < task.dueMillis
  runs : ∀ name, g.outline name = (h.outline name).filter (outlasts h.timers limit)

/-- While tasks fire up to a limit and no patrol among them, only deadlines pass. -/
theorem lapsed_fireDue (hw : h.Watchful reserved) (ho : h.RunsOwned) (hrest : h.PatrolsRest limit)
    (served : Nat) :
    Lapsed limit h { h.endCancelled.fireDue limit with clock := limit, served } := by
  have hended := h.quiet_endCancelled
  have hw' := hw.endCancelled
  have hrest' : ∀ task ∈ h.endCancelled.tasks, ∀ patrol, task.work = .patrol patrol →
      limit < task.dueMillis := by
    intro task hmem patrol hwork
    rw [tasks_endCancelled] at hmem
    split_ifs at hmem with hdown
    · have hspared := (List.mem_filter.1 hmem).2
      simp [Task.isCancellable, hwork] at hspared
    · exact hrest.resolve_left hdown task hmem patrol hwork
  have hlapses := lapses_fireUpTo hw' (ho.quiet hended) hrest' (h.endCancelled.firingBound limit)
  have hdone := fireDue_done hw' limit
  have hafter := (timing_watchful reserved).fireDue h.endCancelled limit hw'
  change Lapses limit h.endCancelled (h.endCancelled.fireDue limit) at hlapses
  generalize h.endCancelled.fireDue limit = g at *
  have hsame := hended.toSameBuild.trans hlapses.toSameBuild
  refine ⟨{ hsame with }, rfl,
    hlapses.users.trans hended.users, hlapses.sessions.trans hended.sessions,
    hlapses.permits.trans hended.permits, fun id => ?_, ?_, fun name => ?_⟩
  · rw [← hended.cancelled]
    exact hlapses.roots id
  · rw [← tasks_endCancelled, ← hlapses.tasks]
    exact (List.filter_eq_self.2 fun task hmem => by simpa using hdone task hmem).symm
  · have hlast := hlapses.runs name
    rw [hended.outline_eq, hended.timers] at hlast
    rcases hlast with hsame | ⟨hgone, htimers, run, hbefore, hdeadline⟩
    · change g.outline name = _
      rw [← hsame]
      cases hseen : g.outline name with
      | none => rfl
      | some seen =>
        -- What is left has its deadline later: where it is watched, its task has not fired.
        have hlasts : outlasts h.timers limit seen = true := by
          obtain ⟨run, hfound, rfl⟩ := Option.map_eq_some_iff.1 hseen
          by_cases hwatched : h.timers = true ∧ g.isCancelled run.scope = false
          · have htimers := (hlapses.timers.trans hended.timers).trans hwatched.1
            have hbefore := hafter.lt_deadline htimers hdone hfound hwatched.2
            simp [outlasts, Run.anonymous, hbefore]
          · cases htimers : h.timers <;> simp_all [outlasts]
        rw [Option.filter_some, if_pos hlasts]
    · have hover : ¬limit < run.deadline.ceilMillis :=
        Nat.not_lt.2 (Span.ceilMillis_le_iff.2 hdeadline)
      have hends : ¬outlasts h.timers limit (run, false) = true := by
        simp [outlasts, htimers, hover]
      rw [hbefore, Option.filter_some, if_neg hends]
      exact hgone

/-- The clock moves at once, and only deadlines pass. -/
theorem lapsed_advance (hreach : h.IsReachable) {millis : Nat}
    (hrest : h.PatrolsRest (h.clock + millis)) :
    Lapsed (h.clock + millis) h (h.advance millis) := by
  have hjumped : (h.jump millis).IsReachable := hreach.performAll [.jump millis]
  have hrest' : (h.jump millis).PatrolsRest (h.clock + millis) := hrest
  have hlapsed := lapsed_fireDue hjumped.watchful hjumped.runsOwned hrest' (h.clock + millis)
  exact { hlapsed with clock := h.clock_advance millis }

/-- Time passes, and only deadlines with it. -/
theorem lapsed_sleep (hreach : h.IsReachable) {millis : Nat}
    (hrest : h.PatrolsRest (h.clock + millis)) :
    Lapsed (h.clock + millis) h (h.sleep millis) :=
  lapsed_fireDue hreach.watchful hreach.runsOwned hrest _

end Host

end Steward
