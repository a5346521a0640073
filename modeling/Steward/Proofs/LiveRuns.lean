import Steward.Proofs.Lifetimes
import Steward.Proofs.SessionOwners

/-!
# Live runs

A run is live as long as it is recorded and its scope is open. A start is answered by the record
alone, so a run whose scope was cancelled keeps its user from starting another one until somebody
looks at it. Only the end of a registration that passes over the run leaves such a run behind: as
long as users are unregistered together with their runs, every recorded run is that of its user's
present registration and is live, and users without a live run may start a program.
-/

namespace Steward.Host

/-- Whether a user has a run in an open scope. -/
def hasLiveRun (h : Host) (user : String) : Bool :=
  (h.run? user).any fun run => !h.isCancelled run.scope

/-- A run that is recorded for a user belongs to the user's present registration. -/
def RunPresent (user : String) (h : Host) : Prop :=
  ∀ run, h.runs.find? user = some run → h.registration? user = some run.registration

variable {effect : Effect} {user : String} {run : Run} {h g : Host}

/-! ## Recorded runs of the present registration -/

namespace RunPresent

/-- A user without a run has none of a past registration. -/
theorem of_idle (hidle : h.runs.find? user = none) : h.RunPresent user := by
  intro run hfound
  rw [hidle] at hfound
  cases hfound

/-- Quiet changes keep recorded runs in the present registration. -/
theorem quiet (hp : h.RunPresent user) (hquiet : Quiet h g) : g.RunPresent user := by
  intro run hfound
  rw [hquiet.runs] at hfound
  rw [hquiet.registration?_eq]
  exact hp run hfound

/-- A change by which the user does not leave keeps a recorded run in the present registration. -/
theorem change (hp : h.RunPresent user) (hchange : Change effect h g)
    (hstays : effect ≠ .left user) : g.RunPresent user := by
  intro run hfound
  rcases hchange.run_of_find? hfound with
    ⟨old, hold, hscope, -⟩ | ⟨owner, howner, hregistration, -⟩
  · have hsame : run.registration = old.registration := by
      simp only [Run.scope, Scope.child.injEq] at hscope
      exact hscope.1
    rw [hsame]
    exact hchange.registration?_kept (hp old hold) hstays
  · refine hchange.registration?_kept ?_ hstays
    simp [registration?, howner, hregistration]

/-- Changes by which the user does not leave keep a recorded run in the present registration. -/
theorem changes {may : Effect → Prop} (hp : h.RunPresent user) (hchanges : Changes may h g)
    (hstays : ¬may (.left user)) : g.RunPresent user := by
  refine hchanges.preserves (fun hquiet hbefore => hbefore.quiet hquiet) ?_ hp
  intro effect a b heffect hchange hbefore
  exact hbefore.change hchange fun hleft => hstays (hleft ▸ heffect)

/-- Retiring any user leaves no run of a past registration behind. -/
theorem retireUser (hp : h.RunPresent user) (name : String) :
    (h.retireUser name).2.RunPresent user := by
  by_cases hname : name = user
  · -- The run ended before its owner left, so there is none.
    subst hname
    have hidle : (h.stopIfRunning name .userUnregistered).2.runs.find? name = none := by
      rw [(h.stopIfRunning_eq name .userUnregistered).2.2.2, Table.find?_erase_self]
    have hleft : Changes (fun effect => effect = .left name)
        (h.stopIfRunning name .userUnregistered).2 (h.retireUser name).2 :=
      changes_unregisterUser rfl
    refine of_idle (hleft.preserves (p := fun k => k.runs.find? name = none) ?_ ?_ hidle)
    · intro a b hquiet hbefore
      rwa [hquiet.runs]
    · rintro effect a b rfl hchange hbefore
      cases hchange with
      | left => simpa [removeUser, reshare] using hbefore
  · have hchanges : Changes (· ≠ .left user) h (h.retireUser name).2 :=
      changes_retireUser (by simp) (by simpa using hname)
    exact hp.changes hchanges (by simp)

/-- Removing a session leaves no run of a past registration behind. -/
theorem removeSession (hp : h.RunPresent user) (id : String) :
    (h.removeSession id).2.RunPresent user := by
  cases hfound : h.sessions.find? id with
  | none => simpa [Host.removeSession, hfound] using hp
  | some session =>
    obtain ⟨event, hremove⟩ := removeSession_eq hfound
    have hdropped : (h.dropSession id session.username).RunPresent user := by
      have hchanges : Changes (· ≠ .left user) h (h.dropSession id session.username) :=
        (Changes.single (by simp) (.closed hfound)).trans (changes_stopIfRunning (by simp) _)
      exact hp.changes hchanges (by simp)
    rw [hremove]
    dsimp only
    split_ifs
    · exact (hdropped.retireUser _).quiet (quiet_emit _ _)
    · exact hdropped.quiet (quiet_emit _ _)

end RunPresent

/-- Whatever fires, recorded runs stay those of present registrations. -/
theorem firing_runPresent (user : String) :
    Firing fun h g => h.RunPresent user → g.RunPresent user := by
  have hstay {a b : Host} (hchanges : Changes (· ≠ .left user) a b) (hp : a.RunPresent user) :
      b.RunPresent user := hp.changes hchanges (by simp)
  exact .of_quiet (fun _ hp => hp) (fun hg hk hp => hk (hg hp)) (fun hquiet hp => hp.quiet hquiet)
    (fun reason hfound => hstay (changes_endRun (by simp) hfound _ rfl reason))
    (fun _ => hstay (changes_monitorCycle (by simp))) (fun _ id hp => hp.removeSession id)

/-- Whatever fires, and whenever, recorded runs stay those of present registrations. -/
theorem timing_runPresent (user : String) :
    Timing fun h g => h.RunPresent user → g.RunPresent user :=
  (firing_runPresent user).timing fun _ hp => hp

namespace RunPresent

/-- An action leaves no run of a past registration behind, unless it takes the user out past the
run. -/
theorem perform (hp : h.RunPresent user) {action : Action} (hdirect : action ≠ .unregisterUser user)
    (hserved : h.served ≤ h.clock) : (h.perform action).RunPresent user := by
  have hother (hstays : ¬action.causes (.left user)) : (h.perform action).RunPresent user :=
    hp.changes (h.perform_changes action hserved) hstays
  have hfiring := firing_runPresent user
  have htiming := timing_runPresent user
  cases action with
  | unregisterUser name =>
    have hname : name ≠ user := by simpa using hdirect
    refine hother ?_
    simpa [Action.causes, Action.patrols, Action.runsTasks] using hname
  | retireUser name => exact hp.retireUser name
  | unregisterSession session =>
    exact (hp.removeSession session).quiet (quiet_reportUnknown _ _ _)
  | monitorCycle => exact hfiring.surveyed h hp
  | guardCycle => exact hfiring.guardCycle h hp
  | sweep => exact hfiring.sweep h hp
  | spawnPatrols => exact hfiring.spawnPatrols htiming h hp
  | spawnSleeper millis cancellable => exact hfiring.spawnSleeper htiming h millis cancellable hp
  | shutdown millis =>
    refine htiming.shutdown (fun k hk => ?_) h millis hserved hp
    have hcancelled : Change (.cancelled .background) k (k.cancel .background) :=
      .cancelled (.inr rfl)
    exact hk.change hcancelled (by simp)
  | advance millis => exact htiming.advance h millis hp
  | sleep millis => exact htiming.sleep h millis hp
  | _ => exact hother (by simp [Action.causes, Action.patrols, Action.runsTasks])

/-- Actions leave no run of a past registration behind, unless one takes the user out past the
run. -/
theorem performAll (hp : h.RunPresent user) {actions : List Action}
    (hdirect : .unregisterUser user ∉ actions) (hserved : h.served ≤ h.clock) :
    (h.performAll actions).RunPresent user := by
  induction actions generalizing h with
  | nil => exact hp
  | cons action rest ih =>
    rw [List.mem_cons, not_or] at hdirect
    have hfirst := hp.perform (Ne.symm hdirect.1) hserved
    exact ih hfirst hdirect.2 ((h.perform_changes action hserved).served_le hserved)

end RunPresent

/-! ## Starting a program -/

/-- Without a recorded run there is no live one. -/
theorem hasLiveRun_of_idle (hidle : h.run? user = none) : h.hasLiveRun user = false := by
  simp [hasLiveRun, hidle]

/-- A recorded run is live as long as its scope is open. -/
theorem hasLiveRun_of_recorded (hrecorded : h.run? user = some run) :
    h.hasLiveRun user = !h.isCancelled run.scope := by
  simp [hasLiveRun, hrecorded]

/-- Where scopes are open, the live runs are those of present registrations. -/
theorem ScopesOpen.hasLiveRun_iff (hopen : h.ScopesOpen) (hrecorded : h.run? user = some run) :
    h.hasLiveRun user = true ↔ h.registration? user = some run.registration := by
  rw [hasLiveRun_of_recorded hrecorded, Bool.not_eq_true']
  constructor
  · intro halive
    obtain ⟨owner, howner, hregistration⟩ := hopen.owner hrecorded halive
    simp [registration?, howner, hregistration]
  · intro hpresent
    rw [Bool.eq_false_iff]
    intro hcancelled
    rcases isCancelled_child.1 hcancelled with hended | hleft
    · exact hopen.runScopes user run hrecorded hended
    · exact (hopen.userScopes user _ hpresent).2 hleft

/-- Where scopes are open, a registered user without a recorded run may start a program. -/
theorem ScopesOpen.start_of_idle {owner : User} (hopen : h.ScopesOpen)
    (howner : h.users.find? user = some owner) (hidle : h.run? user = none)
    (hclock : h.later? owner.allowance.maxExecutionTime ≠ none) (program : String) :
    ∃ handle, (h.start user program).1 = .ok (.ok handle) := by
  have hpresent : h.registration? user = some owner.registration := by
    simp [registration?, howner]
  have hfresh : h.isCancelled (.child owner.registration h.nextId) = false := by
    rw [Bool.eq_false_iff]
    intro hcancelled
    rcases isCancelled_child.1 hcancelled with hused | hleft
    · exact Nat.lt_irrefl _ (hopen.scopes _ hused).2
    · exact (hopen.userScopes user _ hpresent).2 hleft
  rcases Host.start_of_idle howner hidle hfresh program with hstopped | hstarted
  · obtain ⟨-, other, hother, hend⟩ := start_eq_error_iff.1 hstopped
    rw [howner] at hother
    cases hother
    exact absurd hend hclock
  · exact hstarted

/-- A check of a run that is not live takes it out, and leaves its user and what the clock can hold
as they are. -/
theorem check_of_dead (hdead : h.hasLiveRun user = false) (statement : Statement) :
    (h.check user statement).2.run? user = none ∧ (h.check user statement).2.users = h.users ∧
      ∀ length, (h.check user statement).2.later? length = h.later? length := by
  unfold check
  cases hrecorded : h.run? user with
  | none =>
    have hquiet := quiet_reportUnknown "check_basic_execution" user
      ((Except.error (.unknownRun user) : Except Fault Unit), h)
    exact ⟨by rw [run?, hquiet.runs]; exact hrecorded, hquiet.users,
      hquiet.later?_eq hquiet.clock⟩
  | some run =>
    rw [hasLiveRun_of_recorded hrecorded, Bool.not_eq_false'] at hdead
    simp [hdead, endRun, emit, run?, later?, now]

/-- A start is answered by the record of runs, as long as callers leave the scopes to the host and a
clock can hold the deadline: who has a run recorded may not start another one, and a recorded run is
live exactly if it was started under the present registration. Since the user last had no run, only
an end of the registration that passed over the run can have left one behind that is not live;
without it exactly the users without a live run may start a program. Where it happened, the run is
gone with the next check. -/
theorem starts_follow_records {policies : Policies} {sampler : Sampler} {timers : Bool}
    {start : Host} (hbuilt : IsBuilt policies sampler timers start) (actions : List Action)
    (hspares : ∀ action ∈ actions, action.sparesScopes = true) (user program : String) :
    let h := start.performAll actions
    ∀ owner, h.users.find? user = some owner →
      h.later? policies.system.maxExecutionTime ≠ none →
      (h.run? user = none → ∃ handle, (h.start user program).1 = .ok (.ok handle)) ∧
      (∀ run, h.run? user = some run →
        (h.start user program).1 = .ok (.error (.alreadyRunning user)) ∧
          (h.hasLiveRun user = true ↔ run.registration = owner.registration)) ∧
      (∀ earlier later, actions = earlier ++ later →
        (start.performAll earlier).run? user = none → .unregisterUser user ∉ later →
        ((∃ handle, (h.start user program).1 = .ok (.ok handle)) ↔ h.hasLiveRun user = false) ∧
          ((h.start user program).1 = .ok (.error (.alreadyRunning user)) ↔
            h.hasLiveRun user = true)) ∧
      (h.hasLiveRun user = false → ∀ statement,
        ∃ handle, ((h.check user statement).2.start user program).1 = .ok (.ok handle)) := by
  have hserved : start.served ≤ start.clock := hbuilt.quiet.served le_rfl
  have horderly : (start.performAll actions).IsOrderly :=
    ⟨policies, sampler, timers, start, actions, hbuilt, hspares, rfl⟩
  have hopen := horderly.scopesOpen
  have hpolicies := hbuilt.policies_eq actions
  dsimp only
  intro owner howner hclock
  have hlimit : owner.allowance.maxExecutionTime = policies.system.maxExecutionTime := by
    rw [horderly.isReachable.sharesFairly.allowance_eq howner, ← hpolicies]
    rfl
  rw [← hlimit] at hclock
  have hpresent : (start.performAll actions).registration? user = some owner.registration := by
    simp [registration?, howner]
  have hidle (hnone : (start.performAll actions).run? user = none) :
      ∃ handle, ((start.performAll actions).start user program).1 = .ok (.ok handle) :=
    hopen.start_of_idle howner hnone hclock program
  have hblocked {run : Run} (hrecorded : (start.performAll actions).run? user = some run) :
      ((start.performAll actions).start user program).1 =
        .ok (.error (.alreadyRunning user)) := by
    obtain ⟨deadline, hdeadline⟩ := Option.ne_none_iff_exists'.1 hclock
    exact start_of_recorded howner hrecorded hdeadline program
  refine ⟨hidle, ?_, ?_, ?_⟩
  · intro run hrecorded
    refine ⟨hblocked hrecorded, ?_⟩
    rw [hopen.hasLiveRun_iff hrecorded, hpresent, Option.some_inj]
    exact eq_comm
  · rintro earlier later rfl hnone hdirect
    have hbefore := (start.performAll_changes earlier hserved).served_le hserved
    have hrecords : (start.performAll (earlier ++ later)).RunPresent user := by
      rw [performAll_append]
      exact (RunPresent.of_idle hnone).performAll hdirect hbefore
    cases hrecorded : (start.performAll (earlier ++ later)).run? user with
    | none =>
      obtain ⟨handle, hstarted⟩ := hidle hrecorded
      simp [hstarted, hasLiveRun_of_idle hrecorded]
    | some run =>
      have hlive := (hopen.hasLiveRun_iff hrecorded).2 (hrecords run hrecorded)
      simp [hblocked hrecorded, hlive]
  · intro hdead statement
    obtain ⟨hgone, husers, hsame⟩ := check_of_dead hdead statement
    have hchecked : ((start.performAll actions).check user statement).2.ScopesOpen := by
      have hspared : ∀ action ∈ [Action.check user statement], action.sparesScopes = true := by
        simp [Action.sparesScopes]
      exact (horderly.performAll hspared).scopesOpen
    refine hchecked.start_of_idle (husers ▸ howner) hgone ?_ program
    rwa [hsame]

/-- A user is retired while a program runs and comes back. -/
theorem starts_follow_records_of_return :
    ∃ start, IsBuilt {} ⟨⟨100, 0, 2048, 0⟩, none⟩ true start ∧
      let h := start.performAll
        [.registerUser "ana", .start "ana" "demo", .retireUser "ana", .registerUser "ana"]
      h.hasLiveRun "ana" = false ∧ ∃ handle, (h.start "ana" "next").1 = .ok (.ok handle) := by
  refine ⟨_, .of_build rfl, ?_⟩
  have hbuilt : IsBuilt {} ⟨⟨100, 0, 2048, 0⟩, none⟩ true _ := .of_build rfl
  obtain ⟨-, -, hlaw, -⟩ := starts_follow_records hbuilt
    [.registerUser "ana", .start "ana" "demo", .retireUser "ana", .registerUser "ana"]
    (by decide) "ana" "next" _ rfl (by decide)
  exact ⟨rfl, (hlaw [] _ rfl rfl (by simp)).1.2 rfl⟩

/-- A user who is taken out past a run and comes back has no live run, and may not start a program
all the same. -/
theorem dead_run_blocks_start :
    ∃ start, IsBuilt {} ⟨⟨100, 0, 2048, 0⟩, none⟩ true start ∧
      let h := start.performAll
        [.registerUser "ana", .start "ana" "demo", .unregisterUser "ana", .registerUser "ana"]
      h.isRegistered "ana" = true ∧ h.hasLiveRun "ana" = false ∧
        h.later? h.policies.system.maxExecutionTime ≠ none ∧
        (h.start "ana" "next").1 = .ok (.error (.alreadyRunning "ana")) :=
  ⟨_, .of_build rfl, rfl, rfl, by decide, rfl⟩

end Steward.Host
