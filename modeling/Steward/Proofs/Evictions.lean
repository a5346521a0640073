import Steward.Proofs.FailedAttempts
import Steward.Proofs.IdleSweeps
import Steward.Proofs.RunOwners

/-!
# Evictions

A pass of the memory guard that finds too much memory in use ends a run that was started no later
than any other. Which one it is among those started at the same time depends on the order in which
the runs are met, and the statements here hold for every order. Passes in a row empty the runs from
the oldest on, one each.
-/

namespace Steward.Host

/-- Of the run that was chosen so far and the next one, the one to keep. -/
def pickRun (before : Run → Run → Bool) (chosen : Option (String × Run)) (entry : String × Run) :
    Option (String × Run) :=
  match chosen with
  | none => some entry
  | some found => if before entry.2 found.2 then some entry else some found

/-- The entry of a run that was started first; of those started at one time, the one met first. -/
def earliest? (order : List (String × Run)) : Option (String × Run) :=
  order.foldl (pickRun fun run found => run.startedAt < found.startedAt) none

/-- One pass of the memory guard that meets the runs in a given order. The chosen run is looked for
once more before it is ended. -/
def guardCycleIn (order : List (String × Run)) (h : Host) : Except Fault (Option String) × Host :=
  match h.sampler.measure with
  | .error fault => (.error fault, h)
  | .ok sample =>
    if sample.processMemory ≤ h.memoryPool then (.ok none, h)
    else
      match earliest? order with
      | none => (.ok none, h.emit (.memoryOverIdle sample.processMemory h.memoryPool))
      | some (user, run) =>
        let warned := h.emit (.evicting user run.program sample.processMemory h.memoryPool)
        (.ok (some user), warned.finishRun user run.id .memoryPressure)

/-- The run of a user was evicted, one that was started first. It is the only run that is gone, and
its scope the only one that was cancelled. -/
structure Evicted (h : Host) (name : String) (run : Run) (g : Host) : Prop where
  found : h.runs.find? name = some run
  first : ∀ other twin, h.runs.find? other = some twin → run.startedAt ≤ twin.startedAt
  runs : g.runs = h.runs.erase name
  scopes : ∀ scope, g.isCancelled scope = true ↔ h.isCancelled scope = true ∨ scope = run.scope
  rest : ∃ runs cancelled journal, g = { h with runs, cancelled, journal }

/-- What a pass of the memory guard comes to: a fault, an eviction or no more than a report. -/
structure GuardOutcome (h : Host) (result : Except Fault (Option String)) (g : Host) : Prop where
  failed : ∀ fault, h.sampler.measure = .error fault → result = .error fault ∧ g = h
  evicts_iff : ∀ sample, h.sampler.measure = .ok sample →
    ((∃ name, result = .ok (some name)) ↔
      max h.totalMemory h.policies.system.minSystemMemory - h.policies.system.reservedMemory <
        sample.processMemory ∧ 0 < h.runs.size)
  evicted : ∀ name, result = .ok (some name) → ∃ run, h.Evicted name run g
  spared : (∀ name, result ≠ .ok (some name)) → OnlyReports h g

/-- Passes of the memory guard in a row, one for each measurement, and what each of them tells. Each
meets the runs in an order of its own, and time may go by in between. -/
inductive GuardPasses : List Sample → Host → List (Option String) → Host → Prop
  | nil (h : Host) : GuardPasses [] h [] h
  | cons {h after g : Host} {sample : Sample} {samples : List Sample} {user : Option String}
      {told : List (Option String)} (millis : Nat) {order : List (String × Run)}
      (horder : order.Perm h.runs.entries)
      (hpass : guardCycleIn order { h.jump millis with sampler := ⟨sample, none⟩ } =
        (.ok user, after))
      (hrest : GuardPasses samples after told g) :
      GuardPasses (sample :: samples) h (user :: told) g

/-- Some runs were evicted one after the other, in the order in which they had been started. -/
structure EvictedInTurn (h : Host) (evicted : List (String × Run)) (g : Host) : Prop where
  found : ∀ entry ∈ evicted, h.runs.find? entry.1 = some entry.2
  distinct : (evicted.map Prod.fst).Nodup
  inOrder : evicted.Pairwise fun earlier later => earlier.2.startedAt ≤ later.2.startedAt
  first : ∀ entry ∈ evicted, ∀ name run, g.runs.find? name = some run →
    entry.2.startedAt ≤ run.startedAt
  runs : ∀ name, g.runs.find? name =
    if name ∈ evicted.map Prod.fst then none else h.runs.find? name
  scopes : ∀ scope, g.isCancelled scope = true ↔
    h.isCancelled scope = true ∨ ∃ entry ∈ evicted, scope = entry.2.scope
  rest : ∃ runs cancelled journal clock sampler,
    g = { h with runs, cancelled, journal, clock, sampler }

variable {h g k : Host} {order : List (String × Run)} {name : String} {run : Run}

/-! ## The choice -/

section Choice

variable {before : Run → Run → Bool} {best : Option (String × Run)} {chosen : String × Run}

/-- A run is chosen unless there is none. -/
theorem foldl_pickRun_eq_none :
    order.foldl (pickRun before) best = none ↔ order = [] ∧ best = none := by
  induction order generalizing best with
  | nil => simp
  | cons entry rest ih =>
    rw [List.foldl_cons, ih]
    cases best with
    | none => simp [pickRun]
    | some found => simp only [pickRun]; split_ifs <;> simp

/-- The chosen run is one of those that were met. -/
theorem mem_of_foldl_pickRun (hchosen : order.foldl (pickRun before) none = some chosen) :
    chosen ∈ order := by
  refine (mem_of_foldl_pick (fun best entry => ?_) hchosen).resolve_right (by simp)
  cases best with
  | none => exact .inl rfl
  | some found =>
    simp only [pickRun]
    split_ifs
    · exact .inl rfl
    · exact .inr rfl

/-- No run that was met was started before the chosen one, when the comparison is one of starts. -/
theorem startedAt_le_of_foldl_pickRun
    (hbefore : ∀ run found, before run found = true → run.startedAt ≤ found.startedAt)
    (hafter : ∀ run found, before run found = false → found.startedAt ≤ run.startedAt)
    (hchosen : order.foldl (pickRun before) best = some chosen) :
    (∀ entry ∈ order, chosen.2.startedAt ≤ entry.2.startedAt) ∧
      ∀ found, best = some found → chosen.2.startedAt ≤ found.2.startedAt := by
  induction order generalizing best with
  | nil =>
    refine ⟨by simp, fun found hbest => ?_⟩
    cases hchosen.symm.trans hbest
    exact le_rfl
  | cons entry rest ih =>
    obtain ⟨hrest, hkept⟩ := ih hchosen
    have hboth : chosen.2.startedAt ≤ entry.2.startedAt ∧
        ∀ found, best = some found → chosen.2.startedAt ≤ found.2.startedAt := by
      cases best with
      | none => exact ⟨hkept entry rfl, by simp⟩
      | some found =>
        cases hpick : before entry.2 found.2 with
        | true =>
          have hle := hkept entry (by simp [pickRun, hpick])
          refine ⟨hle, fun other hother => ?_⟩
          cases hother
          exact hle.trans (hbefore _ _ hpick)
        | false =>
          have hle := hkept found (by simp [pickRun, hpick])
          refine ⟨hle.trans (hafter _ _ hpick), fun other hother => ?_⟩
          cases hother
          exact hle
    refine ⟨fun other hmem => ?_, hboth.2⟩
    rcases List.mem_cons.1 hmem with rfl | hmem
    · exact hboth.1
    · exact hrest other hmem

/-- A first run that was started no later than the others is chosen. -/
theorem earliest?_cons {entry : String × Run} {others : List (String × Run)}
    (hfirst : ∀ other ∈ others, entry.2.startedAt ≤ other.2.startedAt) :
    earliest? (entry :: others) = some entry := by
  unfold earliest?
  rw [List.foldl_cons]
  change List.foldl _ (some entry) others = some entry
  induction others with
  | nil => rfl
  | cons other rest ih =>
    have hlate : ¬other.2.startedAt < entry.2.startedAt :=
      Nat.not_lt.2 (hfirst other List.mem_cons_self)
    rw [List.foldl_cons, pickRun, if_neg (by simpa using hlate)]
    exact ih fun later hmem => hfirst later (List.mem_cons_of_mem _ hmem)

end Choice

/-- When there are runs, one is chosen, whatever the order, and none was started before it. -/
theorem earliest?_spec (horder : order.Perm h.runs.entries) :
    (earliest? order = none ∧ h.runs.size = 0) ∨
      ∃ name run, earliest? order = some (name, run) ∧ h.runs.find? name = some run ∧
        ∀ other twin, h.runs.find? other = some twin → run.startedAt ≤ twin.startedAt := by
  cases hchosen : earliest? order with
  | none =>
    obtain ⟨rfl, -⟩ := foldl_pickRun_eq_none.1 hchosen
    exact .inl ⟨rfl, horder.length_eq.symm⟩
  | some entry =>
    obtain ⟨name, run⟩ := entry
    have hfound := horder.mem_iff.1 (mem_of_foldl_pickRun hchosen)
    obtain ⟨hfirst, -⟩ := startedAt_le_of_foldl_pickRun
      (fun _ _ hlt => Nat.le_of_lt (of_decide_eq_true hlt))
      (fun _ _ hle => Nat.le_of_not_lt (of_decide_eq_false hle)) hchosen
    refine .inr ⟨name, run, rfl, Table.mem_entries_iff.1 hfound, fun other twin htwin => ?_⟩
    exact hfirst (other, twin) (horder.mem_iff.2 (Table.mem_entries_iff.2 htwin))

/-- The run that the guard ends was started no later than any other. -/
theorem startedAt_le_of_oldestRun? (hold : h.oldestRun? = some (name, run)) {other : String}
    {twin : Run} (htwin : h.runs.find? other = some twin) : run.startedAt ≤ twin.startedAt := by
  have hpick : h.runs.entries.foldl (pickRun startedBefore) none = some (name, run) := hold
  obtain ⟨hfirst, -⟩ := startedAt_le_of_foldl_pickRun
    (fun run found hbefore => by simp [startedBefore] at hbefore; omega)
    (fun run found hafter => by simp [startedBefore] at hafter; omega) hpick
  exact hfirst (other, twin) (Table.mem_entries_iff.2 htwin)

/-! ## One pass -/

/-- A run that is found is ended, whoever asks for it. -/
theorem finishRun_of_find? (hfound : h.runs.find? name = some run) (reason : StopReason) :
    h.finishRun name run.id reason = h.endRun name run reason := by
  simp [finishRun, run?, hfound]

/-- A pass of the guard meets the runs in some order. -/
theorem exists_guardCycle_eq (h : Host) :
    ∃ order : List (String × Run),
      order.Perm h.runs.entries ∧ h.guardCycle = guardCycleIn order h := by
  cases hold : h.oldestRun? with
  | none =>
    have hpick : h.runs.entries.foldl (pickRun startedBefore) none = none := hold
    obtain ⟨hempty, -⟩ := foldl_pickRun_eq_none.1 hpick
    refine ⟨[], by rw [hempty], ?_⟩
    unfold guardCycle guardCycleIn
    rw [hold]
    cases h.sampler.measure <;> rfl
  | some entry =>
    obtain ⟨name, run⟩ := entry
    have hfound := find?_of_oldestRun? hold
    have hperm := Table.entries_perm_of_find? hfound
    have hchosen : earliest? ((name, run) :: (h.runs.erase name).entries) = some (name, run) := by
      refine earliest?_cons fun other hmem => ?_
      have hlisted : other ∈ h.runs.entries := hperm.mem_iff.2 (List.mem_cons_of_mem _ hmem)
      exact startedAt_le_of_oldestRun? hold (Table.mem_entries_iff.1 hlisted)
    refine ⟨_, hperm.symm, ?_⟩
    have hfinish (event : Event) := finishRun_of_find? (h := h.emit event) hfound .memoryPressure
    unfold guardCycle guardCycleIn
    cases h.sampler.measure with
    | error fault => rfl
    | ok sample => simp only [hold, hchosen, hfinish]

/-- The end of a run that was started first evicts it. -/
theorem evicted_endRun (hfound : h.runs.find? name = some run)
    (hfirst : ∀ other twin, h.runs.find? other = some twin → run.startedAt ≤ twin.startedAt)
    (event : Event) (reason : StopReason) :
    h.Evicted name run ((h.emit event).endRun name run reason) := by
  obtain ⟨cancelled, hcancel, hmem⟩ :=
    { h.emit event with runs := h.runs.erase name }.cancel_spec run.scope
  have hend : (h.emit event).endRun name run reason = { h with
      runs := h.runs.erase name, cancelled
      journal := ((h.emit event).endRun name run reason).journal } := by
    simp only [endRun, emit] at hcancel ⊢
    rw [hcancel]
  refine ⟨hfound, hfirst, by rw [hend], fun scope => ?_, _, _, _, hend⟩
  rw [hend, isCancelled_iff, isCancelled_iff]
  dsimp only
  simp only [hmem]
  constructor
  · rintro ((rfl | hself) | ⟨root, id, hscope, hroot | hroot⟩)
    · exact .inr rfl
    · exact .inl (.inl hself)
    · cases hroot
    · exact .inl (.inr ⟨root, id, hscope, hroot⟩)
  · rintro ((hself | ⟨root, id, hscope, hroot⟩) | rfl)
    · exact .inl (.inr hself)
    · exact .inr ⟨root, id, hscope, .inr hroot⟩
    · exact .inl (.inl rfl)

/-- A pass of the guard without enough memory left evicts a run, if there is one. -/
theorem guardCycleIn_of_pressed (horder : order.Perm h.runs.entries) {sample : Sample}
    (hsample : h.sampler.measure = .ok sample) (hpressed : h.memoryPool < sample.processMemory) :
    (∃ event, guardCycleIn order h = (.ok none, h.emit event) ∧ h.runs.size = 0) ∨
      ∃ name run g, guardCycleIn order h = (.ok (some name), g) ∧ h.Evicted name run g := by
  have hover : ¬sample.processMemory ≤ h.memoryPool := Nat.not_le.2 hpressed
  rcases earliest?_spec horder with ⟨hnone, hempty⟩ | ⟨name, run, hchosen, hfound, hfirst⟩
  · refine .inl ⟨.memoryOverIdle sample.processMemory h.memoryPool, ?_, hempty⟩
    simp only [guardCycleIn, hsample, if_neg hover, hnone]
  · refine .inr ⟨name, run, _, ?_, evicted_endRun hfound hfirst
      (.evicting name run.program sample.processMemory h.memoryPool) .memoryPressure⟩
    have hfinish (event : Event) := finishRun_of_find? (h := h.emit event) hfound .memoryPressure
    simp only [guardCycleIn, hsample, if_neg hover, hchosen, hfinish]

/-- An eviction leaves one run less. -/
theorem Evicted.size_eq (hevicted : h.Evicted name run g) : g.runs.size + 1 = h.runs.size := by
  rw [hevicted.runs]
  exact Table.size_erase_of_find? hevicted.found

/-- A pass of the guard fails, evicts a run or only reports. -/
theorem guardOutcome (horder : order.Perm h.runs.entries) :
    h.GuardOutcome (guardCycleIn order h).1 (guardCycleIn order h).2 := by
  cases hmeasure : h.sampler.measure with
  | error fault =>
    have hpass : guardCycleIn order h = (.error fault, h) := by simp only [guardCycleIn, hmeasure]
    rw [hpass]
    refine ⟨fun other hother => ?_, by simp [hmeasure], by simp, fun _ => .refl h⟩
    cases hmeasure.symm.trans hother
    exact ⟨rfl, rfl⟩
  | ok sample =>
    by_cases hpressed : h.memoryPool < sample.processMemory
    · have hpool : max h.totalMemory h.policies.system.minSystemMemory -
          h.policies.system.reservedMemory < sample.processMemory := hpressed
      rcases guardCycleIn_of_pressed horder hmeasure hpressed with
        ⟨event, hpass, hempty⟩ | ⟨name, run, g, hpass, hevicted⟩
      · rw [hpass]
        refine ⟨by simp [hmeasure], fun other hother => ?_, by simp,
          fun _ => onlyReports_emit h event⟩
        simp [hempty]
      · rw [hpass]
        refine ⟨by simp [hmeasure], fun other hother => ?_, fun other hother => ?_,
          fun hnobody => absurd rfl (hnobody name)⟩
        · cases hmeasure.symm.trans hother
          have hsize := hevicted.size_eq
          exact iff_of_true ⟨name, rfl⟩ ⟨hpool, by omega⟩
        · cases hother
          exact ⟨run, hevicted⟩
    · have hpass : guardCycleIn order h = (.ok none, h) := by
        simp only [guardCycleIn, hmeasure, if_pos (Nat.not_lt.1 hpressed)]
      rw [hpass]
      refine ⟨by simp [hmeasure], fun other hother => ?_, by simp, fun _ => .refl h⟩
      cases hmeasure.symm.trans hother
      exact iff_of_false (by simp) fun hboth => hpressed hboth.1

/-- An eviction leaves the scopes of the other runs as they were. -/
theorem Evicted.isCancelled_of_ne (ho : h.RunsOwned) (hevicted : h.Evicted name run g)
    {other : String} {twin : Run} (hne : other ≠ name) (htwin : h.runs.find? other = some twin) :
    g.isCancelled twin.scope = h.isCancelled twin.scope := by
  have hapart : twin.scope ≠ run.scope := fun hscope =>
    hne (ho.apart other name twin run htwin hevicted.found (Run.id_eq_of_scope hscope))
  rw [Bool.eq_iff_iff, hevicted.scopes]
  simp [hapart]

/-! ## Passes in a row -/

/-- After no pass nothing was evicted. -/
theorem EvictedInTurn.nil (h : Host) : h.EvictedInTurn [] h where
  found := by simp
  distinct := List.nodup_nil
  inOrder := .nil
  first := by simp
  runs := by simp
  scopes := by simp
  rest := ⟨_, _, _, _, _, rfl⟩

/-- Evictions after other times, measurements and reports are the same. -/
theorem EvictedInTurn.of_eq {evicted : List (String × Run)} {clock : Nat} {sampler : Sampler}
    {journal : List Event} (hturn : k.EvictedInTurn evicted g)
    (hsame : k = { h with clock, sampler, journal }) : h.EvictedInTurn evicted g := by
  subst hsame
  refine ⟨hturn.found, hturn.distinct, hturn.inOrder, hturn.first, hturn.runs, fun scope => ?_, ?_⟩
  · rw [hturn.scopes]
    cases scope <;> rfl
  · obtain ⟨runs, cancelled, reports, time, measuring, rfl⟩ := hturn.rest
    exact ⟨runs, cancelled, reports, time, measuring, rfl⟩

/-- One eviction before others. -/
theorem EvictedInTurn.cons {evicted : List (String × Run)} (hevicted : h.Evicted name run g)
    (hturn : g.EvictedInTurn evicted k) : h.EvictedInTurn ((name, run) :: evicted) k := by
  have hruns (other : String) :
      g.runs.find? other = if other = name then none else h.runs.find? other := by
    rw [hevicted.runs, Table.find?_erase]
  -- Whatever is found after the eviction was found before it, under another name.
  have hbefore {other : String} {twin : Run} (htwin : g.runs.find? other = some twin) :
      other ≠ name ∧ h.runs.find? other = some twin := by
    rw [hruns] at htwin
    split_ifs at htwin with hother
    exact ⟨hother, htwin⟩
  refine ⟨?_, ?_, ?_, ?_, fun other => ?_, fun scope => ?_, ?_⟩
  · intro entry hmem
    rcases List.mem_cons.1 hmem with rfl | hmem
    · exact hevicted.found
    · exact (hbefore (hturn.found entry hmem)).2
  · refine List.nodup_cons.2 ⟨fun hmem => ?_, hturn.distinct⟩
    obtain ⟨entry, hentry, hname⟩ := List.mem_map.1 hmem
    exact (hbefore (hturn.found entry hentry)).1 hname
  · refine List.pairwise_cons.2 ⟨fun entry hmem => ?_, hturn.inOrder⟩
    exact hevicted.first _ _ (hbefore (hturn.found entry hmem)).2
  · intro entry hmem other twin htwin
    rcases List.mem_cons.1 hmem with rfl | hmem
    · rw [hturn.runs] at htwin
      split_ifs at htwin
      exact hevicted.first other twin (hbefore htwin).2
    · exact hturn.first entry hmem other twin htwin
  · have hmem : other ∈ ((name, run) :: evicted).map Prod.fst ↔
        other = name ∨ other ∈ evicted.map Prod.fst := List.mem_cons
    rw [hturn.runs, hruns]
    by_cases hgone : other ∈ ((name, run) :: evicted).map Prod.fst
    · rw [if_pos hgone]
      rcases hmem.1 hgone with hname | hlater
      · rw [if_pos hname, ite_self]
      · rw [if_pos hlater]
    · obtain ⟨hname, hlater⟩ := not_or.1 (hmem.not.1 hgone)
      rw [if_neg hgone, if_neg hlater, if_neg hname]
  · rw [hturn.scopes, hevicted.scopes, or_assoc]
    simp
  · obtain ⟨runs, cancelled, journal, rfl⟩ := hevicted.rest
    obtain ⟨runs, cancelled, journal, clock, sampler, rfl⟩ := hturn.rest
    exact ⟨runs, cancelled, journal, clock, sampler, rfl⟩

/-- There are passes for all measurements. -/
theorem exists_guardPasses (samples : List Sample) (h : Host) :
    ∃ told g, GuardPasses samples h told g := by
  induction samples generalizing h with
  | nil => exact ⟨[], h, .nil h⟩
  | cons sample rest ih =>
    let measured : Host := { h.jump 0 with sampler := ⟨sample, none⟩ }
    obtain ⟨order, horder, -⟩ := measured.exists_guardCycle_eq
    have hok : ∃ user, (guardCycleIn order measured).1 = .ok user := by
      have hmeasure : measured.sampler.measure = .ok sample := rfl
      simp only [guardCycleIn, hmeasure]
      split_ifs
      · exact ⟨_, rfl⟩
      · cases earliest? order <;> exact ⟨_, rfl⟩
    obtain ⟨user, hok⟩ := hok
    obtain ⟨told, g, hpasses⟩ := ih (guardCycleIn order measured).2
    exact ⟨user :: told, g, .cons 0 horder (Prod.ext hok rfl) hpasses⟩

/-- Passes that all find too much memory in use evict as many runs as they can, oldest first. -/
theorem GuardPasses.evictedInTurn {samples : List Sample} {told : List (Option String)}
    (hpasses : GuardPasses samples h told g)
    (hpressed : ∀ sample ∈ samples, h.memoryPool < sample.processMemory) :
    ∃ evicted, h.EvictedInTurn evicted g ∧
      evicted.length = min samples.length h.runs.size ∧
      told = evicted.map (fun entry => some entry.1) ++
        List.replicate (samples.length - h.runs.size) none := by
  induction hpasses with
  | nil h => exact ⟨[], .nil h, by simp, by simp⟩
  | @cons h after g sample samples user told millis order horder hpass _ ih =>
    have hmeasure : ({ h.jump millis with sampler := ⟨sample, none⟩ } : Host).sampler.measure =
        .ok sample := rfl
    have hsample : h.memoryPool < sample.processMemory := hpressed sample List.mem_cons_self
    have hothers : ∀ other ∈ samples, h.memoryPool < other.processMemory := fun other hmem =>
      hpressed other (List.mem_cons_of_mem _ hmem)
    rcases guardCycleIn_of_pressed (h := { h.jump millis with sampler := ⟨sample, none⟩ }) horder
      hmeasure hsample with ⟨event, hnone, hempty⟩ | ⟨name, run, left, hsome, hevicted⟩
    · cases hpass.symm.trans hnone
      have hsize : h.runs.size = 0 := hempty
      obtain ⟨evicted, hturn, hlength, htold⟩ := ih hothers
      have hafter : (({ h.jump millis with sampler := ⟨sample, none⟩ } : Host).emit
        event).runs.size = 0 := hempty
      rw [hafter, Nat.min_zero] at hlength
      obtain rfl := List.length_eq_zero_iff.1 hlength
      refine ⟨[], hturn.of_eq rfl, by simp [hsize], ?_⟩
      rw [htold, hafter, hsize]
      rfl
    · cases hpass.symm.trans hsome
      have hsize : after.runs.size + 1 = h.runs.size := hevicted.size_eq
      have hpool : after.memoryPool = h.memoryPool := by
        obtain ⟨runs, cancelled, journal, hafter⟩ := hevicted.rest
        rw [hafter]
        rfl
      obtain ⟨evicted, hturn, hlength, htold⟩ := ih (by rwa [hpool])
      refine ⟨(name, run) :: evicted, (EvictedInTurn.cons hevicted hturn).of_eq rfl, ?_, ?_⟩
      · simp only [List.length_cons]
        omega
      · rw [htold, ← hsize, List.length_cons, Nat.add_sub_add_right]
        rfl

/-! ## The guard -/

/-- In a reachable host a pass of the memory guard, whatever the order in which it meets the runs,
evicts one that was started first when the measurement exceeds the memory pool and there is a run;
otherwise it changes nothing. Registrations and other runs keep their scopes. Passes in a row that
all find too much memory in use evict a run each, in the order of their starts, until none is
left. -/
theorem memory_guard_evicts_in_turn (hreach : h.IsReachable) :
    (∃ order : List (String × Run),
        order.Perm h.runs.entries ∧ h.guardCycle = guardCycleIn order h) ∧
      (∀ order : List (String × Run), order.Perm h.runs.entries →
        h.GuardOutcome (guardCycleIn order h).1 (guardCycleIn order h).2) ∧
      (∀ name run g, h.Evicted name run g →
        (∀ root, g.isCancelled (.root root) = h.isCancelled (.root root)) ∧
        ∀ other twin, other ≠ name → h.runs.find? other = some twin →
          g.isCancelled twin.scope = h.isCancelled twin.scope) ∧
      ∀ samples : List Sample, (∀ sample ∈ samples, h.memoryPool < sample.processMemory) →
        (∃ told g, GuardPasses samples h told g) ∧
        ∀ told g, GuardPasses samples h told g → ∃ evicted, h.EvictedInTurn evicted g ∧
          evicted.length = min samples.length h.runs.size ∧
          told = evicted.map (fun entry => some entry.1) ++
            List.replicate (samples.length - h.runs.size) none := by
  refine ⟨h.exists_guardCycle_eq, fun order => guardOutcome, fun name run g hevicted => ?_,
    fun samples hpressed => ?_⟩
  · refine ⟨fun root => ?_, fun other twin hne htwin =>
      hevicted.isCancelled_of_ne hreach.runsOwned hne htwin⟩
    rw [Bool.eq_iff_iff, hevicted.scopes]
    simp [Run.scope]
  · exact ⟨exists_guardPasses samples h, fun told g hpasses => hpasses.evictedInTurn hpressed⟩

/-- Of two runs the one that was started first goes in the first pass, although its user's name
comes last; the other goes in the second pass, and the third finds none. -/
theorem memory_guard_evicts_in_turn_of_two :
    ∃ start, IsBuilt {} ⟨⟨100, 0, 2048, 0⟩, none⟩ true start ∧
      let h := start.performAll
        [.registerUser "ana", .registerUser "bo", .start "bo" "sort", .jump 10,
          .start "ana" "list"]
      let full : Sample := ⟨1793, 0, 2048, 0⟩
      ∀ told g, GuardPasses [full, full, full] h told g →
        told = [some "bo", some "ana", none] ∧ ∀ name, g.runs.find? name = none := by
  refine ⟨_, .of_build rfl, ?_⟩
  intro h full told g hpasses
  have hreach : h.IsReachable :=
    ⟨{}, ⟨⟨100, 0, 2048, 0⟩, none⟩, true, _, _, .of_build rfl, rfl⟩
  have hpressed : ∀ sample ∈ [full, full, full], h.memoryPool < sample.processMemory := by
    intro sample hmem
    have hsample : sample = full := by simpa using hmem
    rw [hsample]
    decide
  obtain ⟨-, -, -, hrow⟩ := memory_guard_evicts_in_turn hreach
  obtain ⟨evicted, hturn, hlength, htold⟩ := (hrow _ hpressed).2 told g hpasses
  have htwo : evicted.length = 2 := hlength
  obtain ⟨⟨name, run⟩, ⟨other, twin⟩, rfl⟩ := List.length_eq_two.1 htwo
  have hran (name : String) (run : Run) (hfound : h.runs.find? name = some run) :
      name = "ana" ∧ run.startedAt = 10 ∨ name = "bo" ∧ run.startedAt = 0 := by
    have hentry : (name, run) ∈ h.runs.entries := Table.mem_entries_iff.2 hfound
    rcases List.mem_cons.1 hentry with heq | hlater
    · cases heq
      exact .inl ⟨rfl, rfl⟩
    · cases List.mem_singleton.1 hlater
      exact .inr ⟨rfl, rfl⟩
  have hne : name ≠ other := by simpa using hturn.distinct
  have hle : run.startedAt ≤ twin.startedAt := by simpa using hturn.inOrder
  have hnames : name = "bo" ∧ other = "ana" := by
    rcases hran name run (hturn.found _ List.mem_cons_self) with
      ⟨rfl, hrun⟩ | ⟨rfl, hrun⟩ <;>
    rcases hran other twin (hturn.found _ (List.mem_cons_of_mem _ List.mem_cons_self)) with
      ⟨rfl, htwin⟩ | ⟨rfl, htwin⟩
    · exact absurd rfl hne
    · omega
    · exact ⟨rfl, rfl⟩
    · exact absurd rfl hne
  obtain ⟨rfl, rfl⟩ := hnames
  refine ⟨htold, fun name => ?_⟩
  rw [hturn.runs]
  split_ifs with hgone
  · rfl
  · by_contra hleft
    obtain ⟨left, hfound⟩ := Option.ne_none_iff_exists'.1 hleft
    rcases hran name left hfound with ⟨rfl, -⟩ | ⟨rfl, -⟩
    · exact hgone (by simp)
    · exact hgone (by simp)

end Steward.Host
