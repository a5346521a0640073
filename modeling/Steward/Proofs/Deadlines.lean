import Steward.Proofs.TaskQueue

/-!
# Deadlines

Where tasks can wait for the clock, no run that goes on in an open scope outlasts its deadline,
whether it is checked or not. A run is ended for its own deadline only, and once. A task that was to
watch a run that is no longer there does nothing from then on, whatever its user runs by then.
-/

namespace Steward.Host

variable {reserved : List Nat} {h g : Host}

/-! ## After time has passed -/

/-- The clock stands where it was moved to. -/
theorem clock_advance (h : Host) (millis : Nat) : (h.advance millis).clock = h.clock + millis := by
  have hended := (h.jump millis).quiet_endCancelled.clock
  have hlow := clock_le_fireDue (h.jump millis).endCancelled (h.clock + millis)
  have hhigh := clock_fireDue_le (h.jump millis).endCancelled (h.clock + millis)
  rw [hended] at hlow hhigh
  change h.clock + millis ≤ _ at hlow
  change _ ≤ max (h.clock + millis) (h.clock + millis) at hhigh
  rw [max_self] at hhigh
  exact Nat.le_antisymm hhigh hlow

/-- After time has passed no task is due. -/
theorem Watchful.waiting_advance (hw : h.Watchful reserved) (millis : Nat) :
    ∀ task ∈ (h.advance millis).tasks, h.clock + millis < task.dueMillis := by
  have hjumped := (timing_watchful reserved).jump h millis hw
  exact fireDue_done hjumped.endCancelled (h.clock + millis)

/-- After time has passed no task is due. -/
theorem Watchful.waiting_sleep (hw : h.Watchful reserved) (millis : Nat) :
    ∀ task ∈ (h.sleep millis).tasks, h.clock + millis < task.dueMillis :=
  fireDue_done hw.endCancelled (h.clock + millis)

/-- Where no task is due, no run in an open scope has passed its deadline. -/
theorem Watchful.lt_deadline (hw : h.Watchful reserved) (htimers : h.timers = true) {millis : Nat}
    (hwaiting : ∀ task ∈ h.tasks, millis < task.dueMillis) {user : String} {run : Run}
    (hfound : h.run? user = some run) (halive : h.isCancelled run.scope = false) :
    millis < run.deadline.ceilMillis := by
  obtain ⟨task, hmem, hwork⟩ := hw.watched htimers user run hfound halive
  obtain ⟨-, hdeadline⟩ := (hw.watching task hmem user run.id run.scope hwork).2 run hfound rfl
  rw [hdeadline]
  exact hwaiting task hmem

/-! ## The right run -/

/-- What is due for a run is due for its own deadline. -/
theorem Watchful.deadline_le (hw : h.Watchful reserved) {user : String} {run : Run}
    (hfound : h.runs.find? user = some run) {time : Nat} (hoverdue : h.IsOverdue user run time) :
    run.deadline ≤ .ofMillis time := by
  rcases hoverdue with hpassed | ⟨task, hmem, scope, hwork, hdue⟩
  · exact hpassed
  · obtain ⟨-, hdeadline⟩ := (hw.watching task hmem user run.id scope hwork).2 run hfound rfl
    rw [hdeadline]
    exact Span.ceilMillis_le_iff.1 hdue

/-- In a reachable host no run is still to start. -/
theorem IsReachable.startedAt_le (hreach : h.IsReachable) {user : String} {run : Run}
    (hfound : h.runs.find? user = some run) : run.startedAt ≤ h.clock := by
  obtain ⟨policies, sampler, timers, clockEnd, hchanges⟩ := hreach.changes
  refine hchanges.preserves
    (p := fun k => ∀ user run, k.runs.find? user = some run → run.startedAt ≤ k.clock)
    ?_ ?_ ?_ user run hfound
  · intro a b hquiet hbefore
    rw [hquiet.runs, hquiet.clock]
    exact hbefore
  · intro effect a b _ hchange hbefore name found hfound
    have hlater : a.clock ≤ b.clock :=
      (Changes.single trivial hchange : Changes (fun _ => True) a b).clock_le
    rcases hchange.run_of_find? hfound with ⟨old, hold, -, hstart, -⟩ | ⟨_, -, -, -, -, hstart, -⟩
    · exact hstart ▸ (hbefore name old hold).trans hlater
    · exact hstart ▸ hlater
  · intro name found hfound
    simp [empty] at hfound

/-- A run that is not current does not become current again. -/
theorem Changes.run_gone {may : Effect → Prop} (hchanges : Changes may h g) {user : String}
    {id : Nat} (hissued : id < h.nextId)
    (hgone : ∀ run, h.runs.find? user = some run → run.id ≠ id) :
    ∀ run, g.runs.find? user = some run → run.id ≠ id := by
  refine (hchanges.preserves
    (p := fun k => id < k.nextId ∧ ∀ run, k.runs.find? user = some run → run.id ≠ id)
    ?_ ?_ ⟨hissued, hgone⟩).2
  · intro a b hquiet hbefore
    refine ⟨hbefore.1.trans_le hquiet.nextId, ?_⟩
    rw [hquiet.runs]
    exact hbefore.2
  · intro effect a b _ hchange hbefore
    refine ⟨hbefore.1.trans_le hchange.nextId_le, fun run hfound => ?_⟩
    rcases hchange.run_of_find? hfound with ⟨old, hold, hscope, -⟩ | ⟨_, -, -, hnew, -, -⟩
    · rw [Run.id_eq_of_scope hscope]
      exact hbefore.2 old hold
    · exact fun heq => Nat.lt_irrefl _ (heq ▸ hnew ▸ hbefore.1)

/-- A run that is told to have ended is told so once and is gone. -/
theorem stopped_once {events : List Event} {user program : String} {reason : StopReason}
    {elapsed commands loops : Nat}
    (hcount : stopsOf user events = if h.isRunning user ∧ ¬g.isRunning user then 1 else 0)
    (hmem : .programStopped user program reason elapsed commands loops ∈ events) :
    stopsOf user events = 1 ∧ g.isRunning user = false := by
  have hpositive : 0 < stopsOf user events :=
    List.countP_pos_iff.2 ⟨_, hmem, by simp⟩
  split_ifs at hcount with hended
  · exact ⟨hcount, Bool.eq_false_iff.2 hended.2⟩
  · omega

/-- A task that watches a run that is not there does nothing but leave. -/
theorem fire_of_gone {task : Task} {user : String} {id : Nat} {scope : Scope}
    (hwork : task.work = .watchDeadline user id scope)
    (hgone : ∀ run, h.runs.find? user = some run → run.id ≠ id) :
    h.fire task = h.dropTask task.id := by
  have huntracked : task.isTracked = false := by simp [Task.isTracked, hwork]
  obtain ⟨name, other, place, hwatch, ⟨run, hfound, hid, -, -⟩ | ⟨-, hfire⟩⟩ :=
    fire_cases (h := h) huntracked
  · rw [hwork] at hwatch
    cases hwatch
    exact absurd hid (hgone run hfound)
  · exact hfire

/-- Where tasks can wait for the clock, deadlines are enforced without checks. After time has passed
no run in an open scope has reached its deadline. A run that ends for its deadline had reached it at
the time that the report of its end tells; it is reported once and is never current again. And a
task that watches for a deadline watches that of the current run, or it does nothing but leave when
it fires, at any point of anything that happens later. -/
theorem deadlines_enforced (hreach : h.IsReachable) (htimers : h.timers = true) :
    (∀ millis, ∀ g ∈ [h.advance millis, h.sleep millis], g.clock = h.clock + millis ∧
      ∀ user run, g.run? user = some run → g.isCancelled run.scope = false →
        g.clock < run.deadline.ceilMillis) ∧
      (∀ action, let g := h.perform action
        ∃ events, g.journal = events ++ h.journal ∧
          ∀ event ∈ events, ∀ user program elapsed commands loops,
            event = .programStopped user program .timeout elapsed commands loops →
            ∃ run time, h.run? user = some run ∧ run.startedAt ≤ h.clock ∧
              h.clock ≤ time ∧ time ≤ g.clock ∧ event = run.stopEvent user .timeout time ∧
              run.deadline ≤ .ofMillis time ∧ stopsOf user events = 1 ∧
              ∀ later, ((g.performAll later).run? user).map Run.scope ≠ some run.scope) ∧
      ∀ task ∈ h.tasks, ∀ user id scope, task.work = .watchDeadline user id scope →
        (∃ run, h.run? user = some run ∧ run.id = id ∧ run.scope = scope ∧
          run.deadline = task.due) ∨
          ∀ later, Changes (fun _ => True) h later → later.fire task = later.dropTask task.id := by
  have hw := hreach.watchful
  refine ⟨fun millis => ?_, fun action => ?_, ?_⟩
  · have hadvanced : Changes (fun _ => True) h (h.advance millis) :=
      h.performAll_changes [.advance millis] hreach.served_le
    have hslept : Changes (fun _ => True) h (h.sleep millis) :=
      h.performAll_changes [.sleep millis] hreach.served_le
    have hawake := (timing_watchful []).advance h millis hw
    have hrested := (timing_watchful []).sleep h millis hw
    simp only [List.mem_cons, List.not_mem_nil, or_false, forall_eq_or_imp, forall_eq]
    refine ⟨⟨h.clock_advance millis, fun user run hfound halive => ?_⟩, rfl,
      fun user run hfound halive => ?_⟩
    · rw [clock_advance]
      exact hawake.lt_deadline (hadvanced.sameBuild.timers.trans htimers)
        (hw.waiting_advance millis) hfound halive
    · exact hrested.lt_deadline (hslept.sameBuild.timers.trans htimers) (hw.waiting_sleep millis)
        hfound halive
  · have hchanges := h.perform_changes action hreach.served_le
    obtain ⟨events, hjournal, hends, hcount⟩ :=
      (h.reported_perform action hreach.served_le).stopsOf_eq
    refine ⟨events, hjournal, ?_⟩
    rintro _ hmem user program elapsed commands loops rfl
    obtain ⟨name, run, reason, time, hfound, hfrom, hto, hevent, hoverdue⟩ := hends _ hmem rfl
    cases hevent
    obtain ⟨honce, hgone⟩ := stopped_once (hcount user) hmem
    refine ⟨run, time, hfound, hreach.startedAt_le hfound, hfrom, hto, rfl,
      hw.deadline_le hfound (hoverdue rfl), honce, ?_⟩
    intro later hback
    obtain ⟨twin, htwin, hscope⟩ := Option.map_eq_some_iff.1 hback
    have hissued := (hreach.runsOwned.id_lt hfound).trans_le hchanges.nextId_le
    have hlater := (h.perform action).performAll_changes later (hchanges.served_le hreach.served_le)
    refine hlater.run_gone hissued ?_ twin htwin (Run.id_eq_of_scope hscope)
    intro other hother
    rw [isRunning, Table.contains, hother] at hgone
    cases hgone
  · intro task hmem user id scope hwork
    obtain ⟨hissued, hwatching⟩ := hw.watching task hmem user id scope hwork
    by_cases hcurrent : ∃ run, h.runs.find? user = some run ∧ run.id = id
    · obtain ⟨run, hfound, hid⟩ := hcurrent
      exact .inl ⟨run, hfound, hid, hwatching run hfound hid⟩
    · refine .inr fun later hlater => fire_of_gone hwork (hlater.run_gone hissued ?_)
      exact fun run hfound hid => hcurrent ⟨run, hfound, hid⟩

/-- The task that watched a run which was stopped early leaves the next run of its user alone, which
ends at its own deadline. -/
theorem deadlines_enforced_of_restart :
    ∃ start, IsBuilt { system := { maxExecutionTime := .ofMillis 10 } }
        ⟨⟨100, 0, 2048, 0⟩, none⟩ true start ∧
      let h := start.performAll [.registerUser "ana", .start "ana" "demo", .jump 5, .stop "ana",
        .start "ana" "next"]
      h.tasks.map Task.dueMillis = [10, 15] ∧
        (∀ task ∈ h.tasks.head?, ∀ later, Changes (fun _ => True) h later →
          later.fire task = later.dropTask task.id) ∧
        (∀ run, (h.advance 8).run? "ana" = some run →
          (h.advance 8).isCancelled run.scope = false → 13 < run.deadline.ceilMillis) ∧
        (h.advance 8).isRunning "ana" = true ∧
        ∃ run, h.run? "ana" = some run ∧ run.program = "next" ∧ run.deadline ≤ .ofMillis 15 ∧
          (h.sleep 12).journal = run.stopEvent "ana" .timeout 15 :: h.journal ∧
          ∀ later, (((h.sleep 12).performAll later).run? "ana").map Run.scope ≠ some run.scope := by
  refine ⟨_, .of_build rfl, ?_⟩
  intro h
  have hbuilt : IsBuilt { system := { maxExecutionTime := .ofMillis 10 } }
      ⟨⟨100, 0, 2048, 0⟩, none⟩ true _ := .of_build rfl
  have hreach : h.IsReachable := hbuilt.isReachable _
  obtain ⟨hpassed, hends, hwatches⟩ := deadlines_enforced hreach rfl
  have hclock : h.clock = 5 := rfl
  have hstarted : (h.run? "ana").map (fun run => (run.program, run.startedAt)) = some ("next", 5) :=
    rfl
  have htold : (h.sleep 12).journal =
      .programStopped "ana" "next" .timeout 10 0 0 :: h.journal := by decide +kernel
  refine ⟨by decide, ?_, ?_, by decide, ?_⟩
  · intro task hhead
    cases hhead
    refine (hwatches _ List.mem_cons_self "ana" _ _ rfl).resolve_left ?_
    rintro ⟨run, hfound, hid, -⟩
    cases hfound
    cases hid
  · clear_value h
    obtain ⟨hlater, hwithin⟩ := hpassed 8 _ List.mem_cons_self
    rw [hlater, hclock] at hwithin
    exact hwithin "ana"
  · clear_value h
    obtain ⟨events, hjournal, hstops⟩ := hends (.sleep 12)
    change (h.sleep 12).journal = events ++ h.journal at hjournal
    obtain rfl : events = [.programStopped "ana" "next" .timeout 10 0 0] :=
      List.append_cancel_right (hjournal.symm.trans htold)
    obtain ⟨run, time, hfound, -, -, -, hevent, hdeadline, -, hgone⟩ :=
      hstops _ (List.mem_singleton_self _) _ _ _ _ _ rfl
    rw [hfound, Option.map_some, Option.some_inj, Prod.mk.injEq] at hstarted
    -- The report tells of ten milliseconds since the start, and so of its time.
    obtain rfl : time = 15 := by
      have helapsed := hevent
      rw [Run.stopEvent, hstarted.2] at helapsed
      injection helapsed with _ _ _ helapsed
      simp only [Span.millis, Span.since, Span.ofMillis, Span.nanosPerMilli, wordMax] at helapsed
      omega
    exact ⟨run, hfound, hstarted.1, hdeadline, hevent ▸ htold, hgone⟩

end Steward.Host
