import Steward.Proofs.RunOwners

/-!
# Open scopes

As long as callers leave the scopes to the host, the scopes of users and of runs are open and told
apart: nothing is cancelled but what ends, and what ends shares its scope with nothing else.
-/

namespace Steward

/-- Whether an action leaves it to the host to cancel scopes. -/
def Action.sparesScopes : Action → Bool
  | .cancelScope _ => false
  | _ => true

/-- Whether a change cancels no scope but those of what ends, and that of the patrols. -/
def Effect.sparesScopes : Effect → Prop
  | .cancelled scope => scope = .background
  | _ => True

namespace Host

/-- A host that was built and then used in any way, except that no caller cancelled a scope. -/
def IsOrderly (h : Host) : Prop :=
  ∃ policies sampler timers start actions, IsBuilt policies sampler timers start ∧
    (∀ action ∈ actions, action.sparesScopes = true) ∧ h = start.performAll actions

/-- The registration of a name, if the name is registered. -/
def registration? (h : Host) (name : String) : Option Nat :=
  (h.users.find? name).map User.registration

variable {effect : Effect} {h g : Host}

/-! ## Registrations -/

/-- A name is registered when it has a registration. -/
theorem isRegistered_iff {name : String} :
    h.isRegistered name = true ↔ ∃ id, h.registration? name = some id := by
  rw [isRegistered, Table.contains_iff]
  simp [registration?]

/-- The registrations are those of the enrolment. -/
theorem registration?_eq_enrolled (h : Host) (name : String) :
    h.registration? name = (h.enrolled.find? name).map Prod.fst := by
  simp only [registration?, enrolled, Table.find?_map, Option.map_map]
  rfl

/-- Who joins gets the next identity as registration. -/
theorem registration?_welcome {name : String} (hnew : h.users.find? name = none) (other : String) :
    (h.welcome name).registration? other =
      if other = name then some h.nextId else h.registration? other := by
  rw [registration?_eq_enrolled, enrolled_welcome hnew, Table.find?_map, Table.find?_insert]
  split_ifs
  · rfl
  · rw [registration?_eq_enrolled, Option.map_map]
    rfl

/-- Who leaves has no registration any more. -/
theorem registration?_removeUser (h : Host) (name : String) (user : User) (other : String) :
    (h.removeUser name user).registration? other =
      if other = name then none else h.registration? other := by
  rw [registration?_eq_enrolled, enrolled_removeUser, Table.find?_map, Table.find?_erase]
  split_ifs
  · rfl
  · rw [registration?_eq_enrolled, Option.map_map]
    rfl

/-- Quiet changes keep the registrations. -/
theorem Quiet.registration?_eq (hquiet : Quiet h g) (name : String) :
    g.registration? name = h.registration? name := by
  rw [registration?, hquiet.users, registration?]

/-- A registration that is found was there before or is that of a new user, and it is not that of a
user who left. -/
theorem Change.registration?_cases (hchange : Change effect h g) {name : String} {id : Nat}
    (hfound : g.registration? name = some id) :
    effect ≠ .left name ∧
      (h.registration? name = some id ∨ effect = .joined name ∧ id = h.nextId) := by
  by_cases hkeeps : effect.keepsUsers
  · refine ⟨?_, .inl ?_⟩
    · rintro rfl
      exact hkeeps
    · rw [registration?_eq_enrolled, ← hchange.enrolled_eq hkeeps, ← registration?_eq_enrolled,
        hfound]
  · cases hchange with
    | joined hnew =>
      refine ⟨by simp, ?_⟩
      rw [registration?_welcome hnew] at hfound
      split_ifs at hfound with hname
      · cases hfound
        exact .inr ⟨hname ▸ rfl, rfl⟩
      · exact .inl hfound
    | @left _ other user =>
      rw [registration?_removeUser] at hfound
      split_ifs at hfound with hname
      refine ⟨?_, .inl hfound⟩
      simpa using Ne.symm hname
    | _ => exact absurd trivial hkeeps

/-- A registration that was there is kept, unless its user left. -/
theorem Change.registration?_kept (hchange : Change effect h g) {name : String} {id : Nat}
    (hfound : h.registration? name = some id) (hstays : effect ≠ .left name) :
    g.registration? name = some id := by
  by_cases hkeeps : effect.keepsUsers
  · rw [registration?_eq_enrolled, hchange.enrolled_eq hkeeps, ← registration?_eq_enrolled, hfound]
  · cases hchange with
    | @joined _ other hnew =>
      have hother : name ≠ other := by
        rintro rfl
        simp [registration?, hnew] at hfound
      rw [registration?_welcome hnew, if_neg hother, hfound]
    | @left _ other user =>
      have hother : name ≠ other := by
        rintro rfl
        exact hstays rfl
      rw [registration?_removeUser, if_neg hother, hfound]
    | _ => exact absurd trivial hkeeps

/-- A registration has an identity that was used. -/
theorem EnrolsIssued.registration?_lt (hissued : h.EnrolsIssued) {name : String} {id : Nat}
    (hfound : h.registration? name = some id) : id < h.nextId := by
  rw [registration?_eq_enrolled] at hfound
  obtain ⟨entry, hentry, rfl⟩ := Option.map_eq_some_iff.1 hfound
  exact hissued name entry hentry

/-- Where registrations are told apart, they are after a change. -/
theorem Change.registrations_apart (hchange : Change effect h g) (hissued : h.EnrolsIssued)
    (hapart : ∀ name other id, h.registration? name = some id → h.registration? other = some id →
      name = other)
    {name other : String} {id : Nat} (hname : g.registration? name = some id)
    (hother : g.registration? other = some id) : name = other := by
  obtain ⟨-, hbefore | ⟨hjoined, hid⟩⟩ := hchange.registration?_cases hname
  · obtain ⟨-, hold | ⟨-, hnew⟩⟩ := hchange.registration?_cases hother
    · exact hapart name other id hbefore hold
    · have hused := hissued.registration?_lt hbefore
      omega
  · obtain ⟨-, hold | ⟨hagain, -⟩⟩ := hchange.registration?_cases hother
    · have hused := hissued.registration?_lt hold
      omega
    · rw [hjoined] at hagain
      cases hagain
      rfl

/-- Where registrations have positive identities, they do after a change. -/
theorem Change.registration_pos (hchange : Change effect h g) (hbegun : 0 < h.nextId)
    (hpositive : ∀ name id, h.registration? name = some id → 0 < id) {name : String} {id : Nat}
    (hfound : g.registration? name = some id) : 0 < id := by
  rcases (hchange.registration?_cases hfound).2 with hbefore | ⟨-, rfl⟩
  · exact hpositive name id hbefore
  · exact hbegun

/-- After a change the scope of a registered user is cancelled only if it was before, or on its
own. -/
theorem Change.userScope_cancelled (hchange : Change effect h g) (ho : h.RunsOwned)
    (hapart : ∀ name other id, h.registration? name = some id → h.registration? other = some id →
      name = other)
    {name : String} {id : Nat} (hfound : g.registration? name = some id)
    (hmem : .root id ∈ g.cancelled) :
    h.registration? name = some id ∧ .root id ∈ h.cancelled ∨ effect = .cancelled (.root id) := by
  obtain ⟨hstays, hbefore⟩ := hchange.registration?_cases hfound
  rcases hchange.cancelled_of_mem hmem with
    hold | ⟨_, run, -, -, hscope⟩ | ⟨other, user, rfl, huser, hscope⟩ | ⟨rfl, -⟩
  · rcases hbefore with hbefore | ⟨-, rfl⟩
    · exact .inl ⟨hbefore, hold⟩
    · exact absurd (ho.scopes _ hold) (Nat.lt_irrefl _)
  · cases hscope
  · -- Only the user of this registration could have taken its scope along.
    cases hscope
    have hleft : h.registration? other = some user.registration := by
      simp [registration?, huser]
    rcases hbefore with hbefore | ⟨hjoined, -⟩
    · exact absurd (by rw [hapart name other _ hbefore hleft]) hstays
    · cases hjoined
  · exact .inr rfl

/-! ## Open scopes -/

/-- A host in which the scopes of users and runs are open and told apart. -/
structure ScopesOpen (h : Host) : Prop extends RunsOwned h where
  userScopes : ∀ name id, h.registration? name = some id → 0 < id ∧ .root id ∉ h.cancelled
  usersApart : ∀ name other id, h.registration? name = some id →
    h.registration? other = some id → name = other
  runScopes : ∀ name run, h.runs.find? name = some run → run.scope ∉ h.cancelled

namespace ScopesOpen

/-- Quiet changes keep scopes open. -/
theorem quiet (hopen : h.ScopesOpen) (hquiet : Quiet h g) : g.ScopesOpen where
  toRunsOwned := hopen.toRunsOwned.quiet hquiet
  userScopes name id hfound := by
    rw [hquiet.cancelled]
    exact hopen.userScopes name id (by rwa [← hquiet.registration?_eq])
  usersApart name other id hname hother := by
    rw [hquiet.registration?_eq] at hname hother
    exact hopen.usersApart name other id hname hother
  runScopes := by
    rw [hquiet.runs, hquiet.cancelled]
    exact hopen.runScopes

section Change

variable (hopen : h.ScopesOpen) (hchange : Change effect h g)
include hopen hchange

/-- After a change the scopes of registered users are still open. -/
theorem userScopes_change (hspares : effect.sparesScopes) {name : String} {id : Nat}
    (hfound : g.registration? name = some id) : 0 < id ∧ .root id ∉ g.cancelled := by
  have hpositive := hchange.registration_pos hopen.begun
    (fun other id hother => (hopen.userScopes other id hother).1) hfound
  refine ⟨hpositive, fun hmem => ?_⟩
  rcases hchange.userScope_cancelled hopen.toRunsOwned hopen.usersApart hfound hmem with
    ⟨hbefore, hold⟩ | rfl
  · exact (hopen.userScopes name id hbefore).2 hold
  · cases hspares
    exact Nat.lt_irrefl _ hpositive

/-- After a change the scopes of runs are still open. -/
theorem runScopes_change (hspares : effect.sparesScopes) {name : String} {run : Run}
    (hfound : g.runs.find? name = some run) : run.scope ∉ g.cancelled := by
  intro hmem
  rcases hchange.cancelled_of_mem hmem with
    hcancelled | ⟨other, ended, rfl, hended, hscope⟩ | ⟨_, user, -, -, hscope⟩ | ⟨rfl, -⟩
  · rcases hchange.run_of_find? hfound with ⟨old, hold, hsame, -⟩ | ⟨_, -, -, hnew, -, -⟩
    · exact hopen.runScopes name old hold (hsame ▸ hcancelled)
    · have hbelow : run.id < h.nextId := (hopen.scopes _ hcancelled).2
      omega
  · -- The run that ended is gone, and no other run shared its scope.
    rcases hchange.run_of_find? hfound with ⟨old, hold, hsame, -⟩ | ⟨_, -, -, -, -, -, hlaunched⟩
    · have hname := hopen.apart name other old ended hold hended
        (Run.id_eq_of_scope (by rw [← hsame, hscope]))
      cases hchange with
      | ended => simp [hname] at hfound
    · cases hlaunched
  · cases hscope
  · cases hspares

/-- Every change that spares scopes keeps the scopes of users and runs open. -/
theorem change (hspares : effect.sparesScopes) : g.ScopesOpen where
  toRunsOwned := hopen.toRunsOwned.change hchange
  userScopes _ _ := hopen.userScopes_change hchange hspares
  usersApart _ _ _ := hchange.registrations_apart hopen.users hopen.usersApart
  runScopes _ _ := hopen.runScopes_change hchange hspares

end Change

/-- Changes that spare scopes keep the scopes of users and runs open. -/
theorem changes (hopen : h.ScopesOpen) (hchanges : Changes Effect.sparesScopes h g) :
    g.ScopesOpen :=
  hchanges.preserves (fun hquiet hp => hp.quiet hquiet)
    (fun hspares hchange hp => hp.change hchange hspares) hopen

end ScopesOpen

/-- In the empty host no scope is in use. -/
theorem scopesOpen_empty (policies : Policies) (sampler : Sampler) (timers : Bool)
    (clockEnd : Span) : (empty policies sampler timers clockEnd).ScopesOpen where
  toRunsOwned := runsOwned_empty policies sampler timers clockEnd
  userScopes name id hfound := by simp [registration?, empty] at hfound
  usersApart name other id hname := by simp [registration?, empty] at hname
  runScopes name run hfound := by simp [empty] at hfound

/-! ## Histories that spare scopes -/

/-- What an action causes spares scopes if the action does. -/
theorem sparesScopes_of_causes {action : Action} (hspares : action.sparesScopes = true)
    (hcause : action.causes effect) : effect.sparesScopes := by
  cases effect with
  | cancelled scope =>
    rcases hcause with rfl | ⟨hbackground, -⟩
    · cases hspares
    · exact hbackground
  | _ => trivial

/-- Actions that spare scopes are a row of changes that do. -/
theorem performAll_spares (h : Host) {actions : List Action}
    (hspares : ∀ action ∈ actions, action.sparesScopes = true) (hserved : h.served ≤ h.clock) :
    Changes Effect.sparesScopes h (h.performAll actions) :=
  h.performAll_changes_of (fun action hmem _ => sparesScopes_of_causes (hspares action hmem))
    hserved

namespace IsOrderly

/-- An orderly host is reachable. -/
theorem isReachable (horderly : h.IsOrderly) : h.IsReachable := by
  obtain ⟨policies, sampler, timers, start, actions, hbuilt, -, rfl⟩ := horderly
  exact ⟨policies, sampler, timers, start, actions, hbuilt, rfl⟩

/-- What spares scopes keeps an orderly host orderly. -/
theorem performAll (horderly : h.IsOrderly) {more : List Action}
    (hspares : ∀ action ∈ more, action.sparesScopes = true) : (h.performAll more).IsOrderly := by
  obtain ⟨policies, sampler, timers, start, actions, hbuilt, hbefore, rfl⟩ := horderly
  refine ⟨policies, sampler, timers, start, actions ++ more, hbuilt, ?_,
    (performAll_append ..).symm⟩
  intro action hmem
  rcases List.mem_append.1 hmem with hmem | hmem
  · exact hbefore action hmem
  · exact hspares action hmem

/-- In an orderly host the scopes of users and runs are open. -/
theorem scopesOpen (horderly : h.IsOrderly) : h.ScopesOpen := by
  obtain ⟨policies, sampler, timers, start, actions, hbuilt, hspares, rfl⟩ := horderly
  have hserved : start.served ≤ start.clock := hbuilt.quiet.served le_rfl
  have hstart := (scopesOpen_empty policies sampler timers _).quiet hbuilt.quiet
  exact hstart.changes (start.performAll_spares hspares hserved)

end IsOrderly

end Host

end Steward
