import Steward.Proofs.Deadlines

/-!
# Patrols

A patrol that begins waits for its first point, a period after its start, unless the clock cannot
hold that point. From then on it fires whenever its point is reached and waits again under the same
identity, until shutdown: whatever else fires, the same patrols wait as before.
-/

namespace Steward.Host

/-- Whether a patrol waits under an identity. -/
def HasPatrol (h : Host) (id : Nat) (patrol : Patrol) : Prop :=
  ∃ due, ⟨id, due, .patrol patrol⟩ ∈ h.tasks

/-- A host in which no registration has the identity of the background scope. -/
structure Numbered (h : Host) : Prop where
  begun : 0 < h.nextId
  users : ∀ name id, h.registration? name = some id → 0 < id

/-- A watchful host before shutdown. -/
structure Awake (reserved : List Nat) (h : Host) : Prop
    extends Watchful reserved h, Numbered h where
  running : h.isShuttingDown = false

variable {effect : Effect} {reserved : List Nat} {h g : Host}

/-! ## Before shutdown -/

/-- Shutdown began when the background scope was cancelled. -/
theorem isShuttingDown_iff : h.isShuttingDown = true ↔ .background ∈ h.cancelled :=
  List.contains_iff_mem

/-- Quiet changes do not begin the shutdown. -/
theorem Quiet.isShuttingDown_eq (hquiet : Quiet h g) : g.isShuttingDown = h.isShuttingDown := by
  unfold isShuttingDown Scope.background isCancelled
  rw [hquiet.cancelled]

namespace Numbered

/-- Small changes keep the identity of the background scope out of use. -/
theorem change (hn : h.Numbered) (hchange : Change effect h g) : g.Numbered where
  begun := hn.begun.trans_le hchange.nextId_le
  users name id hfound := by
    rcases (hchange.registration?_cases hfound).2 with hold | ⟨-, rfl⟩
    · exact hn.users name id hold
    · exact hn.begun

/-- Only the end of the background scope itself begins the shutdown. -/
theorem running_change (hn : h.Numbered) (hrunning : h.isShuttingDown = false)
    (hchange : Change effect h g) (hstays : effect ≠ .cancelled .background) :
    g.isShuttingDown = false := by
  rw [Bool.eq_false_iff, Ne, isShuttingDown_iff] at hrunning ⊢
  intro hmem
  rcases hchange.cancelled_of_mem hmem with
    hold | ⟨_, run, -, -, hscope⟩ | ⟨name, user, -, huser, hscope⟩ | ⟨hcancelled, -⟩
  · exact hrunning hold
  · cases hscope
  · have hpositive := hn.users name user.registration (by simp [registration?, huser])
    rw [Scope.background, User.scope, Scope.root.injEq] at hscope
    omega
  · exact hstays hcancelled

/-- Small changes that spare the background scope keep a host numbered and out of shutdown. -/
theorem changes (hn : h.Numbered) (hrunning : h.isShuttingDown = false)
    (hchanges : Changes (· ≠ .cancelled .background) h g) :
    g.Numbered ∧ g.isShuttingDown = false := by
  refine hchanges.preserves (p := fun k => k.Numbered ∧ k.isShuttingDown = false) ?_ ?_
    ⟨hn, hrunning⟩
  · rintro a b hquiet ⟨hbefore, hopen⟩
    refine ⟨⟨hbefore.begun.trans_le hquiet.nextId, fun name id hfound => ?_⟩, ?_⟩
    · rw [hquiet.registration?_eq] at hfound
      exact hbefore.users name id hfound
    · rwa [hquiet.isShuttingDown_eq]
  · rintro effect a b hstays hchange ⟨hbefore, hopen⟩
    exact ⟨hbefore.change hchange, hbefore.running_change hopen hchange hstays⟩

end Numbered

/-- In every reachable host the identity of the background scope is not that of a registration. -/
theorem IsReachable.numbered (hreach : h.IsReachable) : h.Numbered := by
  obtain ⟨policies, sampler, timers, clockEnd, hchanges⟩ := hreach.changes
  refine hchanges.preserves (p := Numbered) ?_ (fun _ hchange hn => hn.change hchange) ?_
  · intro a b hquiet hn
    refine ⟨hn.begun.trans_le hquiet.nextId, fun name id hfound => ?_⟩
    rw [hquiet.registration?_eq] at hfound
    exact hn.users name id hfound
  · exact ⟨Nat.one_pos, fun name id hfound => by simp [registration?, empty] at hfound⟩

/-- A reachable host is awake before shutdown. -/
theorem IsReachable.awake (hreach : h.IsReachable) (hrunning : h.isShuttingDown = false) :
    h.Awake [] :=
  { hreach.watchful, hreach.numbered with running := hrunning }

/-- What spares the background scope and keeps a host watchful keeps it awake. -/
theorem Awake.changes {others : List Nat} (ha : h.Awake reserved) (hw : g.Watchful others)
    (hchanges : Changes (· ≠ .cancelled .background) h g) : g.Awake others := by
  obtain ⟨hnumbered, hrunning⟩ := ha.toNumbered.changes ha.running hchanges
  exact { hw, hnumbered with running := hrunning }

/-! ## The same patrols -/

/-- A task that fires leaves the tasks of other identities. -/
theorem Watchful.mem_fire (hw : h.Watchful reserved) {task other : Task} (hmem : task ∈ h.tasks)
    (hother : other ∈ h.tasks) (hid : other.id ≠ task.id) : other ∈ (h.fire task).tasks := by
  have hrest : other ∈ (h.dropTask task.id).tasks := List.mem_filter.2 ⟨hother, by simpa⟩
  rcases tasks_fire hw hmem with ⟨-, htasks⟩ | ⟨patrol, next, -, -, htasks⟩
  · exact htasks ▸ hrest
  · exact htasks ▸ List.mem_append_left _ hrest

/-- The same patrols wait after a task fired. -/
theorem Watchful.hasPatrol_fire (hw : h.Watchful reserved) {task : Task} (hmem : task ∈ h.tasks)
    (id : Nat) (patrol : Patrol) : (h.fire task).HasPatrol id patrol ↔ h.HasPatrol id patrol := by
  constructor
  · rintro ⟨due, hlater⟩
    have hkept (hrest : ⟨id, due, .patrol patrol⟩ ∈ (h.dropTask task.id).tasks) :
        h.HasPatrol id patrol := ⟨due, (List.mem_filter.1 hrest).1⟩
    rcases tasks_fire hw hmem with ⟨-, htasks⟩ | ⟨again, next, hwork, -, htasks⟩
    · exact hkept (htasks ▸ hlater)
    · rw [htasks] at hlater
      rcases List.mem_append.1 hlater with hrest | hnew
      · exact hkept hrest
      · cases List.mem_singleton.1 hnew
        refine ⟨task.due, ?_⟩
        rwa [← hwork]
  · rintro ⟨due, hbefore⟩
    by_cases hid : id = task.id
    · -- The patrol itself fired, so it waits for its next point.
      have hself := hw.eq_of_id hbefore hmem hid
      subst hself
      rcases tasks_fire hw hmem with ⟨hother, -⟩ | ⟨again, next, hwork, -, htasks⟩
      · exact absurd rfl (hother patrol)
      · cases hwork
        refine ⟨next, ?_⟩
        rw [htasks]
        exact List.mem_append_right _ (List.mem_singleton_self _)
    · exact ⟨due, hw.mem_fire hmem hbefore hid⟩

/-- Whatever fires before shutdown, and whenever, the same patrols wait. -/
theorem timing_patrols (reserved : List Nat) : Timing fun h g => h.Awake reserved →
    g.Awake reserved ∧ ∀ id patrol, g.HasPatrol id patrol ↔ h.HasPatrol id patrol where
  refl h ha := ⟨ha, fun _ _ => Iff.rfl⟩
  trans hg hk ha := by
    obtain ⟨hawake, hsame⟩ := hg ha
    obtain ⟨hstill, hagain⟩ := hk hawake
    exact ⟨hstill, fun id patrol => (hagain id patrol).trans (hsame id patrol)⟩
  ticked hle ha :=
    ⟨ha.changes ((timing_watchful reserved).ticked hle ha.toWatchful)
      (.single (by simp) (.ticked hle)), fun _ _ => Iff.rfl⟩
  looked hle ha :=
    ⟨ha.changes ((timing_watchful reserved).looked hle ha.toWatchful)
      (.quiet (quiet_served _ hle)), fun _ _ => Iff.rfl⟩
  noted h event hnote ha :=
    ⟨ha.changes ((timing_watchful reserved).noted h hnote ha.toWatchful)
      (.quiet (h.quiet_emit event)), fun _ _ => Iff.rfl⟩
  dismissed h ha := by
    have hawake := ha.changes ha.toWatchful.endCancelled (.quiet h.quiet_endCancelled)
    refine ⟨hawake, fun id patrol => ?_⟩
    rw [HasPatrol, tasks_endCancelled, ha.running]
    exact Iff.rfl
  fired {h task} hmem hdue ha := by
    have hfiring : Firing (Changes (· ≠ .cancelled .background)) :=
      firing_changes (by simp) (by simp) (by simp) (by simp)
    have hawake := ha.changes (ha.toWatchful.fire hmem) (hfiring.fire hmem hdue)
    exact ⟨hawake, fun id patrol => ha.toWatchful.hasPatrol_fire hmem id patrol⟩

/-- What is due after a limit still waits when everything up to the limit has fired. -/
theorem Watchful.mem_fireUpTo (hw : h.Watchful reserved) {limit : Nat} {task : Task}
    (hmem : task ∈ h.tasks) (hlater : limit < task.dueMillis) (steps : Nat) :
    task ∈ (fireUpTo limit steps h).tasks := by
  induction steps generalizing h with
  | zero => exact hmem
  | succ steps ih =>
    unfold fireUpTo
    cases hfirst : firstDue? limit h.tasks with
    | none => exact hmem
    | some first =>
      obtain ⟨hwaits, hdue⟩ := firstDue?_spec hfirst
      have hticked := (timing_watchful reserved).ticked (le_max_left h.clock first.dueMillis) hw
      refine ih (hticked.fire hwaits) (hticked.mem_fire hwaits hmem fun hid => ?_)
      rw [hw.eq_of_id hmem hwaits hid] at hlater
      omega

/-- A task that is due after a limit is left when everything has fired that is due by it. -/
theorem Awake.mem_fireDue (ha : h.Awake reserved) {task : Task} (hmem : task ∈ h.tasks)
    {limit : Nat} (hahead : .ofMillis limit < task.due) :
    task ∈ (h.endCancelled.fireDue limit).tasks := by
  have hstays : task ∈ h.endCancelled.tasks := by
    rw [tasks_endCancelled, ha.running]
    exact hmem
  refine ha.toWatchful.endCancelled.mem_fireUpTo hstays ?_ _
  refine Nat.lt_of_not_le fun hdue => Nat.lt_irrefl (Span.ofMillis limit).nanos ?_
  exact Nat.lt_of_lt_of_le hahead (Span.ceilMillis_le_iff.1 hdue)

/-- A task that is due later is left when everything has fired that is due now. -/
theorem Awake.mem_settle (ha : h.Awake reserved) {task : Task} (hmem : task ∈ h.tasks)
    (hahead : h.now < task.due) : task ∈ h.settle.tasks :=
  ha.mem_fireDue hmem hahead

/-- A task that is due later still waits after time has passed. -/
theorem Awake.task_waits (ha : h.Awake reserved) {task : Task} (hmem : task ∈ h.tasks)
    (millis : Nat) :
    ∀ g ∈ [h.advance millis, h.sleep millis], g.now < task.due → task ∈ g.tasks := by
  simp only [List.mem_cons, List.not_mem_nil, or_false, forall_eq_or_imp, forall_eq]
  constructor
  · intro hahead
    rw [now, clock_advance] at hahead
    exact ((timing_patrols reserved).jump h millis ha).1.mem_settle hmem hahead
  · exact fun hahead => ha.mem_fireDue hmem hahead

/-! ## Patrols that begin -/

/-- A patrol with a period begins before shutdown exactly if the clock can hold its first point. -/
theorem tasks_beginPatrol (hrunning : h.isShuttingDown = false) {patrol : Patrol}
    (hperiod : (h.period patrol).nanos ≠ 0) (id : Nat) :
    (h.beginPatrol id patrol).tasks = h.tasks ++
      ((h.later? (h.period patrol)).map fun due => ⟨id, due, .patrol patrol⟩).toList := by
  simp only [beginPatrol]
  cases h.later? (h.period patrol) with
  | none => simp [(h.entry_closeScope id).tasks]
  | some due => simp [hperiod, hrunning, await, emit]

/-- Patrols with periods begin before shutdown exactly if the clock can hold their first points. -/
theorem tasks_beginPatrols (hrunning : h.isShuttingDown = false)
    (hperiod : ∀ patrol, (h.period patrol).nanos ≠ 0) (spawned : List (Nat × Patrol)) :
    (spawned.foldl (fun k entry => k.beginPatrol entry.1 entry.2) h).tasks = h.tasks ++
      spawned.filterMap fun entry =>
        (h.later? (h.period entry.2)).map fun due => ⟨entry.1, due, .patrol entry.2⟩ := by
  induction spawned generalizing h with
  | nil => simp
  | cons first rest ih =>
    have hbegun := (h.calm_beginPatrol first.1 first.2).toQuiet
    have hlater := hbegun.later?_eq hbegun.clock
    have hsame (patrol : Patrol) : (h.beginPatrol first.1 first.2).period patrol =
        h.period patrol := by
      unfold period
      rw [hbegun.policies]
    have hopen := hbegun.isShuttingDown_eq.trans hrunning
    rw [List.foldl_cons, ih hopen (fun patrol => hsame patrol ▸ hperiod patrol),
      tasks_beginPatrol hrunning (hperiod first.2), List.append_assoc]
    simp only [hsame, hlater, List.filterMap_cons]
    cases h.later? (h.period first.2) <;> rfl

/-- Patrols are announced under new identities and without tasks. -/
theorem announce_eq (patrols : List Patrol) (h : Host) :
    (announce patrols h).1.map Prod.snd = patrols ∧
      (∀ entry ∈ (announce patrols h).1, h.nextId ≤ entry.1) ∧
      (announce patrols h).2.tasks = h.tasks := by
  induction patrols generalizing h with
  | nil => exact ⟨rfl, by simp [announce], rfl⟩
  | cons patrol rest ih =>
    let spawned := h.emit (.taskSpawned patrol.taskName)
    obtain ⟨hpatrols, hnew, htasks⟩ := ih spawned.openScope.2
    have hopened := spawned.quiet_openScope.nextId
    refine ⟨congrArg (patrol :: ·) hpatrols, ?_, htasks.trans spawned.entry_childScope.tasks⟩
    intro entry hmem
    rcases List.mem_cons.1 hmem with rfl | hmem
    · exact le_rfl
    · exact hopened.trans (hnew entry hmem)

/-- What need not wait for the clock does not move it. -/
theorem clock_runReady (hserved : h.served ≤ h.clock) : h.runReady.clock = h.clock := by
  have hended := h.quiet_endCancelled.clock
  have hlow := clock_le_fireDue h.endCancelled h.served
  have hhigh := clock_fireDue_le h.endCancelled h.served
  rw [hended] at hlow hhigh
  exact Nat.le_antisymm (hhigh.trans (max_le le_rfl hserved)) hlow

/-- Patrols that begin one after the other are calm. -/
theorem calm_beginPatrols (spawned : List (Nat × Patrol)) (h : Host) :
    Calm h (spawned.foldl (fun k entry => k.beginPatrol entry.1 entry.2) h) := by
  induction spawned generalizing h with
  | nil => exact .refl h
  | cons first rest ih => exact (h.calm_beginPatrol first.1 first.2).trans (ih _)

/-- Before new patrols begin, the clock and the periods are as they were. -/
theorem clock_readyPatrols (hserved : h.served ≤ h.clock) :
    (announce patrols h).2.runReady.clock = h.clock ∧
      (∀ length, (announce patrols h).2.runReady.later? length = h.later? length) ∧
      ∀ patrol, (announce patrols h).2.runReady.period patrol = h.period patrol := by
  have hquiet := (calm_announce patrols h).toQuiet
  have htiming : Timing (Changes fun _ => True) :=
    timing_changes (firing_changes (by simp) (by simp) (by simp) (by simp)) trivial
  have hsame := hquiet.toSameBuild.trans (htiming.runReady (announce patrols h).2).sameBuild
  have hclock := (clock_runReady (hquiet.served hserved)).trans hquiet.clock
  refine ⟨hclock, hsame.later?_eq hclock, fun patrol => ?_⟩
  unfold period
  rw [hsame.policies]

/-- Where patrols are spawned before shutdown, the new ones wait for their first points, and only
those begin whose first point the clock can hold. -/
theorem Awake.spawnPatrols (ha : h.Awake []) (hserved : h.served ≤ h.clock)
    (hperiod : ∀ patrol, (h.period patrol).nanos ≠ 0) (patrol : Patrol) :
    h.spawnPatrols.Awake [] ∧
      (∀ due, h.later? (h.period patrol) = some due →
        ∃ id, h.nextId ≤ id ∧ ⟨id, due, .patrol patrol⟩ ∈ h.spawnPatrols.tasks) ∧
      (h.later? (h.period patrol) = none →
        ∀ id, h.spawnPatrols.HasPatrol id patrol → id < h.nextId) := by
  obtain ⟨hpatrols, hnew, htasks⟩ := announce_eq patrols h
  obtain ⟨hclock, hpoints, hperiods⟩ := clock_readyPatrols hserved
  have hannounced : (announce patrols h).2.Awake ((announce patrols h).1.map Prod.fst ++ []) :=
    ha.changes (ha.toWatchful.announce patrols) (.quiet (calm_announce patrols h).toQuiet)
  obtain ⟨hready, hsame⟩ := (timing_patrols _).runReady _ hannounced
  have hcalm := calm_beginPatrols (announce patrols h).1 (announce patrols h).2.runReady
  have hbegun := hready.changes hready.toWatchful.beginPatrols (.quiet hcalm.toQuiet)
  have hbegan := tasks_beginPatrols hready.running
    (fun patrol => by rw [hperiods]; exact hperiod patrol) (announce patrols h).1
  obtain ⟨hspawned, hstill⟩ := (timing_patrols []).settle _ hbegun
  refine ⟨hspawned, fun due hdue => ?_, fun hnone id hwaits => ?_⟩
  · obtain ⟨entry, hmem, rfl⟩ : ∃ entry ∈ (announce patrols h).1, entry.2 = patrol := by
      rw [← List.mem_map, hpatrols]
      cases patrol <;> decide
    refine ⟨entry.1, hnew entry hmem, ?_⟩
    refine hbegun.mem_settle ?_ ?_
    · rw [hbegan]
      refine List.mem_append_right _ (List.mem_filterMap.2 ⟨entry, hmem, ?_⟩)
      rw [hpoints, hperiods, hdue, Option.map_some]
    · -- A period is left before the first point.
      have hlater := nanos_of_later? hdue
      have hlonger := hperiod entry.2
      rw [now, hcalm.clock, hclock, ← now]
      change h.now.nanos < due.nanos
      omega
  · obtain ⟨due, hmem⟩ := (hstill id patrol).1 hwaits
    rw [hbegan] at hmem
    rcases List.mem_append.1 hmem with hold | hbegins
    · obtain ⟨first, hbefore⟩ := (hsame id patrol).1 ⟨due, hold⟩
      rw [htasks] at hbefore
      refine ha.issued id ?_
      rw [List.append_nil]
      exact List.mem_map_of_mem hbefore
    · obtain ⟨entry, -, hbegins⟩ := List.mem_filterMap.1 hbegins
      obtain ⟨point, hpoint, hwait⟩ := Option.map_eq_some_iff.1 hbegins
      cases hwait
      rw [hpoints, hperiods, hnone] at hpoint
      cases hpoint

/-- A patrol that waits before shutdown still waits after time has passed, for a point that is
ahead. -/
theorem Awake.patrol_advances (ha : h.Awake reserved) {id : Nat} {patrol : Patrol}
    (hwaits : h.HasPatrol id patrol) (millis : Nat) :
    ∀ g ∈ [h.advance millis, h.sleep millis], ∃ next,
      ⟨id, next, .patrol patrol⟩ ∈ g.tasks ∧ g.now < next := by
  have hahead {k : Host} {next : Span} (hclock : k.clock = h.clock + millis)
      (hlater : h.clock + millis < next.ceilMillis) : k.now < next := by
    refine Nat.lt_of_not_le fun hle => ?_
    have hdue := Span.ceilMillis_le_iff.2 (show next ≤ .ofMillis k.clock from hle)
    omega
  simp only [List.mem_cons, List.not_mem_nil, or_false, forall_eq_or_imp, forall_eq]
  constructor
  · obtain ⟨next, hmem⟩ := (((timing_patrols _).advance h millis ha).2 id patrol).2 hwaits
    have hlater := ha.toWatchful.waiting_advance millis _ hmem
    exact ⟨next, hmem, hahead (h.clock_advance millis) hlater⟩
  · obtain ⟨next, hmem⟩ := (((timing_patrols _).sleep h millis ha).2 id patrol).2 hwaits
    have hlater := ha.toWatchful.waiting_sleep millis _ hmem
    exact ⟨next, hmem, hahead rfl hlater⟩

end Steward.Host
