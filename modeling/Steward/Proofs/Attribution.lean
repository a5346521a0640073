import Steward.Proofs.CompleteJournal
import Steward.Proofs.IdleFlags

/-!
# Attribution of memory

A monitor cycle attributes what the process uses evenly, rounded down. As long as all of it fits the
pool, what is attributed to a user fits the user's share, and it still does when others leave:
estimates stay and shares only grow, until a user joins, a caller sets an estimate or the next cycle
comes.
-/

namespace Steward

/-- Whether a change lets no user join and leaves the estimates of those who stay alone. -/
def Effect.keepsAttribution : Effect → Prop
  | .joined _ | .estimated _ | .surveyed => False
  | _ => True

/-- Whether an action neither registers users nor estimates what they use. -/
def Action.keepsAttribution : Action → Bool
  | .registerUser _ | .registerSession .. | .recordUsage .. => false
  | action => !action.patrols

/-- Whether an event tells that a user joined or that a monitor cycle measured the process. -/
def Event.isRenewal : Event → Bool
  | .userRegistered .. => true
  | event => event.isSurvey

namespace Allowance

/-- An even part of what fits the pool fits the share of any smaller population. -/
theorem evenPart_le_memoryShare {p : SystemPolicy} {hostMemory used users present : Nat}
    (hfits : used ≤ p.memoryPool hostMemory) (hpresent : 0 < present) (hfewer : present ≤ users) :
    used / users ≤ memoryShare p hostMemory present :=
  calc
    used / users ≤ p.memoryPool hostMemory / users := Nat.div_le_div_right hfits
    _ ≤ p.memoryPool hostMemory / present := Nat.div_le_div_left hfewer hpresent
    _ ≤ memoryShare p hostMemory present := le_max_left _ _

end Allowance

namespace Host

/-- What was reported of users who joined and by monitor cycles, newest first. -/
def renewals (h : Host) : List Event := h.journal.filter Event.isRenewal

/-- What was done between two hosts was reported, and unless it renewed something, all of it left
the attribution alone. -/
structure Steady (h g : Host) : Prop where
  journal : h.journal <:+ g.journal
  changes : g.renewals = h.renewals → Changes Effect.keepsAttribution h g

/-- Nobody is attributed another part, and there are at most so many users. -/
structure Attributed (part population : Nat) (h : Host) : Prop where
  estimates : ∀ name user, h.users.find? name = some user → user.estimatedMemory = part
  population : h.users.size ≤ population

variable {effect : Effect} {h g k : Host}

/-! ## Estimates -/

/-- Who is there after a change that keeps the attribution was there before, with the same
estimate. -/
theorem Change.estimate_kept (hchange : Change effect h g) (hkeeps : effect.keepsAttribution)
    {name : String} {user : User} (hfound : g.users.find? name = some user) :
    ∃ old, h.users.find? name = some old ∧ user.estimatedMemory = old.estimatedMemory := by
  have hreplaced {other : String} {old new : User} (hold : h.users.find? other = some old)
      (hnew : (h.users.insert other new).find? name = some user)
      (hsame : new.estimatedMemory = old.estimatedMemory) :
      ∃ old, h.users.find? name = some old ∧ user.estimatedMemory = old.estimatedMemory := by
    rw [Table.find?_insert] at hnew
    split_ifs at hnew with hother
    · cases hnew
      exact ⟨old, hother ▸ hold, hsame⟩
    · exact ⟨user, hnew, rfl⟩
  cases hchange with
  | joined => exact hkeeps.elim
  | estimated => exact hkeeps.elim
  | surveyed => exact hkeeps.elim
  | left =>
    rw [users_removeUser, Table.find?_map, Table.find?_erase] at hfound
    split_ifs at hfound
    · cases hfound
    · obtain ⟨old, hold, rfl⟩ := Option.map_eq_some_iff.1 hfound
      exact ⟨old, hold, rfl⟩
  | touched hold => exact hreplaced hold hfound rfl
  | hired hold => exact hreplaced hold hfound rfl
  | released =>
    unfold releaseWorker at hfound
    split_ifs at hfound
    · dsimp only at hfound
      split at hfound
      · next old hold =>
        split_ifs at hfound
        · exact hreplaced hold hfound rfl
        · exact ⟨user, hfound, rfl⟩
      · exact ⟨user, hfound, rfl⟩
    · exact ⟨user, hfound, rfl⟩
  | ended => exact ⟨user, by simpa using hfound, rfl⟩
  | cancelled => exact ⟨user, by simpa using hfound, rfl⟩
  | _ => exact ⟨user, hfound, rfl⟩

/-- A change that lets nobody join leaves at most as many users. -/
theorem Change.size_le (hchange : Change effect h g) (hkeeps : effect.keepsAttribution) :
    g.users.size ≤ h.users.size := by
  by_cases hsame : effect.keepsUsers
  · rw [← size_enrolled, hchange.enrolled_eq hsame, size_enrolled]
  · cases hchange with
    | joined => exact hkeeps.elim
    | left hfound =>
      rw [users_removeUser, Table.size_map]
      have hleave := Table.size_erase_of_find? hfound
      omega
    | _ => exact absurd trivial hsame

/-- What keeps the attribution keeps what is attributed, to at most as many users. -/
theorem Attributed.changes {part population : Nat} (ha : h.Attributed part population)
    (hchanges : Changes Effect.keepsAttribution h g) : g.Attributed part population := by
  refine hchanges.preserves (p := Attributed part population) ?_ ?_ ha
  · intro a b hquiet hbefore
    exact ⟨hquiet.users ▸ hbefore.estimates, hquiet.users ▸ hbefore.population⟩
  · intro effect a b hkeeps hchange hbefore
    refine ⟨fun name user hfound => ?_, (hchange.size_le hkeeps).trans hbefore.population⟩
    obtain ⟨old, hold, hsame⟩ := hchange.estimate_kept hkeeps hfound
    rw [hsame, hbefore.estimates name old hold]

/-- What is attributed fits the shares of a population that is no greater. -/
theorem Attributed.fits {used population : Nat} (ha : h.Attributed (used / population) population)
    (hfair : h.SharesFairly) (hfits : used ≤ h.memoryPool) {name : String} {user : User}
    (hfound : h.users.find? name = some user) :
    user.estimatedMemory ≤ user.allowance.maxMemory := by
  have hsome : 0 < h.users.size :=
    List.length_pos_of_mem (Table.mem_entries_iff.2 hfound)
  have hone : max h.users.size 1 = h.users.size := by omega
  rw [ha.estimates name user hfound, hfair.allowance_eq hfound, shareOf, Allowance.fairShare, hone]
  exact Allowance.evenPart_le_memoryShare hfits hsome ha.population

/-- A check finds no memory over an allowance that the estimate fits. -/
theorem checkUsage_of_fits {name : String} {user : User}
    (hfound : h.users.find? name = some user)
    (hfits : user.estimatedMemory ≤ user.allowance.maxMemory) (current bound : Binary64) :
    (h.checkUsage name).1 ≠ .error (.limit .memory current bound) := by
  have hfault : usageFault? user ≠ some (.limit .memory current bound) := by
    unfold usageFault?
    split_ifs with hcpu hmemory
    · simp
    · exact absurd hfits (Nat.not_le_of_lt hmemory)
    · simp
  simp only [checkUsage, user?_eq_ok.2 hfound]
  intro hbreach
  cases hcheck : usageFault? user with
  | none =>
    rw [hcheck] at hbreach
    cases hbreach
  | some fault =>
    rw [hcheck] at hbreach hfault
    simp only [reportUnknown, Except.error.injEq] at hbreach
    exact hfault (by rw [hbreach])

/-! ## Steady steps -/

namespace Steady

/-- What keeps the attribution and adds to the journal is steady. -/
theorem of_changes (hjournal : h.journal <:+ g.journal)
    (hchanges : Changes Effect.keepsAttribution h g) : Steady h g := ⟨hjournal, fun _ => hchanges⟩

/-- A change that keeps the attribution and adds to the journal is steady. -/
theorem of_change (hchange : Change effect h g) (hkeeps : effect.keepsAttribution)
    (hjournal : h.journal <:+ g.journal) : Steady h g :=
  .of_changes hjournal (.single hkeeps hchange)

/-- Nothing happened. -/
protected theorem refl (h : Host) : Steady h h := .of_changes List.suffix_rfl (.refl h)

/-- One thing after another: what is reported of the whole is reported of its parts. -/
protected theorem trans (hg : Steady h g) (hk : Steady g k) : Steady h k where
  journal := hg.journal.trans hk.journal
  changes hsame := by
    have hearlier : h.renewals <:+ g.renewals := hg.journal.filter _
    have hlater : g.renewals <:+ k.renewals := hk.journal.filter _
    rw [hsame] at hlater
    have hfirst : g.renewals = h.renewals :=
      hlater.eq_of_length (Nat.le_antisymm hlater.length_le hearlier.length_le)
    exact (hg.changes hfirst).trans (hk.changes (hsame.trans hfirst.symm))

/-- A report is steady. -/
theorem emit (h : Host) (event : Event) : Steady h (h.emit event) :=
  .of_changes (List.suffix_cons _ _) (.quiet (h.quiet_emit event))

/-- What is reported as a renewal is steady, whatever it is. -/
theorem of_renewal (hjournal : h.journal <:+ g.journal) {event : Event}
    (hrenewal : event.isRenewal = true) : Steady h (g.emit event) where
  journal := hjournal.trans (List.suffix_cons _ _)
  changes hsame := by
    have hlonger : (g.emit event).renewals.length = g.renewals.length + 1 := by
      simp [renewals, Host.emit, hrenewal]
    have hearlier : h.renewals <:+ g.renewals := hjournal.filter _
    have hle := hearlier.length_le
    rw [hsame] at hlonger
    omega

end Steady

/-- A registration is steady: who joins is reported. -/
theorem steady_registerUser (h : Host) (name : String) : Steady h (h.registerUser name).2 := by
  unfold registerUser
  split_ifs
  · exact .refl h
  · exact .refl h
  · have hbefore : h.journal <:+ (h.welcome name).journal := List.suffix_rfl
    exact .of_renewal hbefore rfl

/-- A registration of a session is steady: if its user joins, that is reported. -/
theorem steady_registerSession (h : Host) (id user address : String) :
    Steady h (h.registerSession id user address).2 := by
  unfold registerSession
  cases hfound : h.sessions.find? id with
  | some session =>
    exact .of_changes (List.suffix_cons _ _) (changes_refreshSession trivial hfound user)
  | none =>
    dsimp only
    split_ifs
    · exact .emit h _
    · exact .emit h _
    · have hjoin := h.steady_registerUser user
      have hnew : (h.registerUser user).2.sessions.find? id = none := by
        rwa [sessions_registerUser]
      have hopen (first : Bool) : Steady (h.registerUser user).2
          ((h.registerUser user).2.openSession id user address first) := by
        refine .of_changes ?_ (changes_openSession trivial hnew user address first)
        cases first with
        | true => exact List.suffix_cons _ _
        | false => exact (List.suffix_cons _ _).trans (List.suffix_cons _ _)
      rcases hregister : h.registerUser user with ⟨result, joined⟩
      rw [hregister] at hjoin hopen
      split
      · next heq =>
        cases heq
        exact hjoin.trans (hopen true)
      · next heq =>
        cases heq
        exact hjoin.trans (hopen false)
      · next heq =>
        cases heq
        exact hjoin.trans (.emit _ _)

/-- A monitor cycle is steady: if it measures the process, that is reported. -/
theorem steady_monitorCycle (h : Host) : Steady h h.monitorCycle.2 := by
  unfold monitorCycle
  cases h.sampler.measure with
  | error fault => exact .refl h
  | ok sample =>
    refine .of_renewal ?_ rfl
    rw [emitAll_eq]
    exact List.suffix_append _ _

/-- The end of a run is steady. -/
theorem steady_endRun {name : String} {run : Run} (hfound : h.runs.find? name = some run)
    (reason : StopReason) : Steady h (h.endRun name run reason) := by
  refine .of_changes ?_ (changes_endRun trivial hfound run rfl reason)
  simp only [endRun, Host.emit, journal_cancel]
  exact List.suffix_cons _ _

/-- What a single task does is steady. -/
theorem firing_steady : Firing Steady where
  refl := .refl
  trans hg hk := hg.trans hk
  noted h event _ := .emit h event
  evicted hfound := steady_endRun hfound _
  surveyed := steady_monitorCycle
  removed h id :=
    .of_changes (h.entry_removeSession id).journal_suffix
      (changes_removeSession trivial (fun _ => trivial) fun _ => trivial)
  calm hcalm := .of_changes hcalm.chronicle.journal_suffix (.quiet hcalm.toQuiet)
  watched {h task} _ _ huntracked := by
    have hdropped : Steady h (h.dropTask task.id) :=
      .of_changes List.suffix_rfl (.quiet (h.quiet_dropTask task.id))
    obtain ⟨user, id, scope, -, ⟨run, hfound, -, -, hfire⟩ | ⟨-, hfire⟩⟩ :=
      fire_cases (h := h) huntracked
    · have hkept : (h.dropTask task.id).runs.find? user = some run := hfound
      rw [hfire]
      exact hdropped.trans (steady_endRun hkept _)
    · rw [hfire]
      exact hdropped

/-- What happens while time passes is steady. -/
theorem timing_steady : Timing Steady :=
  firing_steady.timing fun hle => .of_change (.ticked hle) trivial List.suffix_rfl

/-! ## Histories -/

/-- What an action causes keeps the attribution if the action does. -/
theorem keepsAttribution_of_causes {action : Action} (hkeeps : action.keepsAttribution = true)
    (hcauses : action.causes effect) : effect.keepsAttribution := by
  cases effect with
  | joined user => cases action <;> simp_all [Action.keepsAttribution, Action.causes]
  | estimated user => cases action <;> simp_all [Action.keepsAttribution, Action.causes]
  | surveyed => cases action <;> simp_all [Action.keepsAttribution, Action.causes]
  | _ => trivial

/-- Every action but an estimate by a caller is steady. -/
theorem steady_perform (h : Host) {action : Action} (hserved : h.served ≤ h.clock)
    (hmeasured : ∀ user cpu memory, action ≠ .recordUsage user cpu memory) :
    Steady h (h.perform action) := by
  by_cases hkeeps : action.keepsAttribution = true
  · obtain ⟨events, htells, -⟩ := (h.reported_perform action hserved).told
    exact .of_changes ⟨events, htells.journal.symm⟩ ((h.perform_changes action hserved).mono
      fun _ => keepsAttribution_of_causes hkeeps)
  · cases action with
    | registerUser user => exact h.steady_registerUser user
    | registerSession session user address => exact h.steady_registerSession session user address
    | recordUsage user cpu memory => exact absurd rfl (hmeasured user cpu memory)
    | monitorCycle => exact h.steady_monitorCycle
    | guardCycle => exact firing_steady.guardCycle h
    | sweep => exact firing_steady.sweep h
    | spawnPatrols => exact firing_steady.spawnPatrols timing_steady h
    | spawnSleeper millis cancellable =>
      exact firing_steady.spawnSleeper timing_steady h millis cancellable
    | shutdown millis =>
      refine timing_steady.shutdown (fun g => ?_) h millis hserved
      refine .of_change (.cancelled (.inr rfl)) trivial ?_
      simp only [journal_cancel, List.suffix_rfl]
    | advance millis => exact timing_steady.advance h millis
    | sleep millis => exact timing_steady.sleep h millis
    | _ => exact absurd rfl hkeeps

/-- Actions in a row, without an estimate by a caller, are steady. -/
theorem steady_performAll (h : Host) {actions : List Action} (hserved : h.served ≤ h.clock)
    (hmeasured : ∀ action ∈ actions, ∀ user cpu memory, action ≠ .recordUsage user cpu memory) :
    Steady h (h.performAll actions) := by
  induction actions generalizing h with
  | nil => exact .refl h
  | cons action rest ih =>
    have hlater := (h.perform_changes action hserved).served_le hserved
    have hfirst := h.steady_perform hserved (hmeasured action List.mem_cons_self)
    exact hfirst.trans (ih _ hlater fun other hmem => hmeasured other (List.mem_cons_of_mem _ hmem))

/-! ## Attribution -/

/-- A monitor cycle attributes the same part to everybody. -/
theorem attributed_monitorCycle {sample : Sample} (hsome : 0 < h.population)
    (hsample : h.sampler.measure = .ok sample) :
    h.monitorCycle.2.Attributed (sample.processMemory / h.population) h.population := by
  have hone : max h.users.size 1 = h.population := by
    unfold population at hsome ⊢
    omega
  rw [monitorCycle_eq hsample]
  refine ⟨fun name user hfound => ?_, (Table.size_map _ _).le⟩
  simp only [spreadUsage, hone, Table.find?_map] at hfound
  obtain ⟨old, -, rfl⟩ := Option.map_eq_some_iff.1 hfound
  rfl

/-- What is the same for all users adds up to a multiple. -/
theorem Attributed.total_eq {part population : Nat} (ha : h.Attributed part population) :
    total (h.users.values.map User.estimatedMemory) = h.users.size * part := by
  have hsame : ∀ user ∈ h.users.values, user.estimatedMemory = part := by
    intro user hmem
    obtain ⟨⟨name, found⟩, hentry, rfl⟩ := List.mem_map.1 hmem
    exact ha.estimates name found (Table.mem_entries_iff.1 hentry)
  rw [total_map_const hsame, Table.values, List.length_map, Table.size]

/-- A monitor cycle attributes what it measured evenly, but for less than one megabyte a user, and
if all of it fits the pool, what is attributed to a user fits the share of that user until something
is renewed: whatever else callers and tasks do, also in the rest of the step of the clock in which
the cycle was made, a check finds no memory over the allowance. -/
theorem attribution_fits_shares {before : Host} (hreach : before.IsReachable)
    (hway : Changes (fun _ => True) before h) (hsome : 0 < h.population) {sample : Sample}
    (hsample : h.sampler.measure = .ok sample) (hfits : sample.processMemory ≤ h.memoryPool) :
    let measured := h.monitorCycle.2
    let attributed := total (measured.users.values.map User.estimatedMemory)
    (∀ name user, measured.users.find? name = some user →
        user.estimatedMemory = sample.processMemory / h.population) ∧
      attributed ≤ sample.processMemory ∧
      sample.processMemory < attributed + h.population ∧
      ∀ within more, Changes Effect.keepsAttribution measured within →
        (∀ action ∈ more, ∀ user cpu memory, action ≠ .recordUsage user cpu memory) →
        (within.performAll more).renewals = within.renewals →
        let k := within.performAll more
        ∀ name user, k.users.find? name = some user →
          user.estimatedMemory ≤ user.allowance.maxMemory ∧
            ∀ current bound, (k.checkUsage name).1 ≠ .error (.limit .memory current bound) := by
  have hcycle : Changes (fun _ => True) h h.monitorCycle.2 := changes_monitorCycle trivial
  have ha := attributed_monitorCycle hsome hsample
  have hsize : h.monitorCycle.2.users.size = h.population := by
    rw [monitorCycle_eq hsample]
    exact Table.size_map _ _
  refine ⟨ha.estimates, ?_, ?_, ?_⟩
  · rw [ha.total_eq, hsize]
    exact Nat.mul_div_le _ _
  · rw [ha.total_eq, hsize]
    exact Nat.lt_mul_div_succ _ hsome
  · intro within more hrest hmeasured hsame
    have hmany : Changes (fun _ => True) before within :=
      (hway.trans hcycle).trans (hrest.mono fun _ _ => trivial)
    have hlater := (within.steady_performAll (hmany.served_le hreach.served_le) hmeasured).changes
      hsame
    have hall := hmany.trans (hlater.mono fun _ _ => trivial)
    have hfair := hreach.sharesFairly.changes hall
    have hpool : (within.performAll more).memoryPool = h.memoryPool := by
      rw [memoryPool, hall.policies_eq, hall.sameBuild.totalMemory, ← hway.policies_eq,
        ← hway.sameBuild.totalMemory, memoryPool]
    intro k name user hfound
    have hwithin := ((ha.changes hrest).changes hlater).fits hfair (hpool ▸ hfits) hfound
    exact ⟨hwithin, checkUsage_of_fits hfound hwithin⟩

/-- Three users share what was measured, and one of them leaves. -/
theorem attribution_fits_shares_of_three :
    ∃ start, IsBuilt {} ⟨⟨1000, 0, 2048, 0⟩, none⟩ true start ∧
      let h := start.performAll [.registerUser "ana", .registerUser "bob", .registerUser "cy"]
      h.population = 3 ∧ h.sampler.measure = .ok ⟨1000, 0, 2048, 0⟩ ∧ 1000 ≤ h.memoryPool ∧
        total (h.monitorCycle.2.users.values.map User.estimatedMemory) = 999 ∧
        let k := h.monitorCycle.2.performAll [.unregisterUser "cy", .start "ana" "demo", .sleep 900]
        k.renewals = h.monitorCycle.2.renewals ∧
          ∃ user, k.users.find? "ana" = some user ∧ user.estimatedMemory = 333 ∧
            user.estimatedMemory ≤ user.allowance.maxMemory := by
  refine ⟨_, .of_build rfl, rfl, rfl, by decide, rfl, by decide +kernel, _, rfl, rfl, ?_⟩
  have hbuilt : IsBuilt {} ⟨⟨1000, 0, 2048, 0⟩, none⟩ true _ := .of_build rfl
  have hreach := hbuilt.isReachable [.registerUser "ana", .registerUser "bob", .registerUser "cy"]
  obtain ⟨-, -, -, hlater⟩ :=
    attribution_fits_shares hreach (.refl _) (Nat.succ_pos 2) rfl (by decide)
  have hmeasured : ∀ action ∈ [Action.unregisterUser "cy", .start "ana" "demo", .sleep 900],
      ∀ user cpu memory, action ≠ .recordUsage user cpu memory := by simp
  exact (hlater _ _ (.refl _) hmeasured (by decide +kernel) "ana" _ rfl).1

end Host

end Steward
