import Steward.Proofs.LiveRuns
import Steward.Proofs.RateWindows
import Steward.Proofs.SessionOwners

/-!
# Reconnects

A session belongs to the user who registered it first, at the address where that was. To register it
again is a reconnect, whoever does it and from wherever. As long as users come and go only with
their sessions, the owner is registered, and only a caller who cancels the scope of the registration
can make a start say otherwise.
-/

namespace Steward

/-- Whether a change cancels only scopes of a kind, and those of what ends. -/
def Effect.cancelsOnly (called : Scope → Prop) : Effect → Prop
  | .cancelled scope => called scope ∨ scope = .background
  | _ => True

namespace Host

variable {called : Scope → Prop} {effect : Effect} {h g : Host}

/-! ## Scopes that callers cancel -/

/-- A host in which the scope of a registered user is cancelled only if it is of some kind. -/
structure CancelledByCallers (called : Scope → Prop) (h : Host) : Prop extends RunsOwned h where
  userScopes : ∀ name id, h.registration? name = some id →
    0 < id ∧ (.root id ∈ h.cancelled → called (.root id))
  usersApart : ∀ name other id, h.registration? name = some id →
    h.registration? other = some id → name = other

namespace CancelledByCallers

/-- Quiet changes cancel nothing. -/
theorem quiet (hc : h.CancelledByCallers called) (hquiet : Quiet h g) :
    g.CancelledByCallers called where
  toRunsOwned := hc.toRunsOwned.quiet hquiet
  userScopes name id hfound := by
    rw [hquiet.cancelled]
    exact hc.userScopes name id (by rwa [← hquiet.registration?_eq])
  usersApart name other id hname hother := by
    rw [hquiet.registration?_eq] at hname hother
    exact hc.usersApart name other id hname hother

/-- Changes that cancel only scopes of a kind keep those of registered users open but for that
kind. -/
theorem changes (hc : h.CancelledByCallers called)
    (hchanges : Changes (Effect.cancelsOnly called) h g) : g.CancelledByCallers called := by
  refine hchanges.preserves (fun hquiet hp => hp.quiet hquiet) ?_ hc
  intro effect a b honly hchange hp
  refine ⟨hp.toRunsOwned.change hchange, fun name id hfound => ?_,
    fun _ _ _ => hchange.registrations_apart hp.users hp.usersApart⟩
  have hpositive := hchange.registration_pos hp.begun
    (fun other id hother => (hp.userScopes other id hother).1) hfound
  refine ⟨hpositive, fun hmem => ?_⟩
  rcases hchange.userScope_cancelled hp.toRunsOwned hp.usersApart hfound hmem with
    ⟨hbefore, hold⟩ | rfl
  · exact (hp.userScopes name id hbefore).2 hold
  · rcases honly with hcalled | hbackground
    · exact hcalled
    · cases hbackground
      exact absurd hpositive (Nat.lt_irrefl _)

/-- In the empty host no scope is in use. -/
theorem of_empty (policies : Policies) (sampler : Sampler) (timers : Bool)
    (clockEnd : Span) : (empty policies sampler timers clockEnd).CancelledByCallers called where
  toRunsOwned := runsOwned_empty policies sampler timers clockEnd
  userScopes name id hfound := by simp [registration?, empty] at hfound
  usersApart name other id hname := by simp [registration?, empty] at hname

end CancelledByCallers

/-- Of the scopes of registered users, only those are cancelled that callers cancelled. -/
theorem IsBuilt.cancelledByCallers {policies : Policies} {sampler : Sampler} {timers : Bool}
    {start : Host} (hbuilt : IsBuilt policies sampler timers start) (actions : List Action) :
    (start.performAll actions).CancelledByCallers (fun scope => .cancelScope scope ∈ actions) := by
  have hserved : start.served ≤ start.clock := hbuilt.quiet.served le_rfl
  refine ((CancelledByCallers.of_empty policies sampler timers _).quiet hbuilt.quiet).changes ?_
  refine start.performAll_changes_of (fun action hmem effect hcause => ?_) hserved
  cases effect with
  | cancelled scope =>
    rcases hcause with rfl | ⟨hbackground, -⟩
    · exact .inl hmem
    · exact .inr hbackground
  | _ => trivial

/-- A registered user who is told that no such user is registered had the scope of the registration
cancelled by a caller. -/
theorem CancelledByCallers.start_notFound (hc : h.CancelledByCallers called) {user : String}
    (hregistered : h.isRegistered user = true) {program : String} {fault : Fault}
    (hfault : (h.start user program).1 = .ok (.error fault)) (hunknown : fault.isNotFound = true) :
    ∃ owner, h.users.find? user = some owner ∧ called owner.scope := by
  obtain ⟨owner, howner⟩ := Table.contains_iff.1 hregistered
  refine ⟨owner, howner, ?_⟩
  have hpresent : h.registration? user = some owner.registration := by
    simp [registration?, howner]
  have hclock : h.later? owner.allowance.maxExecutionTime ≠ none := by
    intro hnone
    rw [start_eq_error_iff.2 ⟨rfl, owner, howner, hnone⟩] at hfault
    cases hfault
  obtain ⟨deadline, hdeadline⟩ := Option.ne_none_iff_exists'.1 hclock
  cases hrun : h.runs.find? user with
  | some run =>
    rw [start_of_recorded howner hrun hdeadline program] at hfault
    cases hfault
    cases hunknown
  | none =>
    cases hfresh : h.isCancelled (.child owner.registration h.nextId) with
    | true =>
      rcases isCancelled_child.1 hfresh with hused | hroot
      · exact absurd (hc.scopes _ hused).2 (Nat.lt_irrefl _)
      · exact (hc.userScopes user _ hpresent).2 hroot
    | false =>
      rcases start_of_idle howner hrun hfresh program with hstopped | ⟨handle, hstarted⟩
      · rw [hstopped] at hfault
        cases hfault
      · rw [hstarted] at hfault
        cases hfault

/-! ## Registering a session -/

/-- A session that was registered is there: with the owner, the address and the counts it had, once
more connected, if it was known, and otherwise with those it was registered for. -/
theorem find?_registerSession {id user address : String}
    (hok : (h.registerSession id user address).1 = .ok ()) :
    (h.registerSession id user address).2.sessions.find? id = some
      (match h.sessions.find? id with
        | some before =>
          { before with
            connections := min (before.connections + 1) halfWordMax, lastActivity := h.clock }
        | none =>
          { username := user, address, windowStart := h.now, lastActivity := h.clock }) := by
  cases hfound : h.sessions.find? id with
  | some before =>
    unfold registerSession
    rw [hfound]
    exact Table.find?_insert_self ..
  | none => exact registerSession_of_new (Table.contains_eq_false.2 hfound) hok

/-- As long as users come and go only with their sessions, a session that was registered is there.
If it was not known, it belongs to the user and the address it was registered for; if it was known,
it keeps its owner, its address and its counts, and only is connected once more and shows a sign of
life. The owner is registered, and is told otherwise at the start of a program only after a caller
cancelled the scope of that registration. -/
theorem session_has_owner {policies : Policies} {sampler : Sampler} {timers : Bool} {start : Host}
    (hbuilt : IsBuilt policies sampler timers start) (actions : List Action)
    (hthrough : ∀ action ∈ actions, action.throughSessions = true) (id user address : String) :
    let h := start.performAll actions
    (h.registerSession id user address).1 = .ok () →
      let g := (h.registerSession id user address).2
      ∃ session, g.sessions.find? id = some session ∧
        (h.sessions.find? id = none →
          session =
            { username := user, address, windowStart := h.now, lastActivity := h.clock }) ∧
        (∀ before, h.sessions.find? id = some before →
          session =
            { before with
              connections := min (before.connections + 1) halfWordMax
              lastActivity := h.clock }) ∧
        g.isRegistered session.username = true ∧
        ∀ program fault, (g.start session.username program).1 = .ok (.error fault) →
          fault.isNotFound = true →
          ∃ owner, g.users.find? session.username = some owner ∧
            .cancelScope owner.scope ∈ actions := by
  dsimp only
  intro hok
  have hfound := find?_registerSession hok
  have hagrees : (start.performAll actions).Agrees :=
    ((agrees_empty policies sampler timers _).quiet hbuilt.quiet).performAll hthrough
      (hbuilt.quiet.served le_rfl)
  have hregistered := (hagrees.registerSession id user address).owns_iff _ |>.1 ⟨id, _, hfound, rfl⟩
  refine ⟨_, hfound, ?_, ?_, hregistered, ?_⟩
  · intro hnew
    rw [hnew]
  · intro before hknown
    rw [hknown]
  · intro program fault hfault hunknown
    have hcalled := hbuilt.cancelledByCallers (actions ++ [.registerSession id user address])
    rw [performAll_append] at hcalled
    obtain ⟨owner, howner, hmem⟩ := hcalled.start_notFound hregistered hfault hunknown
    exact ⟨owner, howner, by simpa using hmem⟩

/-- A user opens a session and connects again. -/
theorem session_has_owner_of_reconnect :
    ∃ start, IsBuilt {} ⟨⟨100, 0, 2048, 0⟩, none⟩ true start ∧
      let h := start.performAll [.registerSession "desk" "ana" "10.0.0.1"]
      (h.registerSession "desk" "ana" "10.0.0.1").1 = .ok () ∧
        ∃ session,
          (h.registerSession "desk" "ana" "10.0.0.1").2.sessions.find? "desk" = some session ∧
            session.username = "ana" ∧ session.connections = 2 := by
  refine ⟨_, .of_build rfl, ?_⟩
  have hbuilt : IsBuilt {} ⟨⟨100, 0, 2048, 0⟩, none⟩ true _ := .of_build rfl
  obtain ⟨session, hfound, -, hknown, -⟩ := session_has_owner hbuilt
    [.registerSession "desk" "ana" "10.0.0.1"] (by decide) "desk" "ana" "10.0.0.1" rfl
  refine ⟨rfl, session, hfound, ?_⟩
  rw [hknown _ rfl]
  exact ⟨rfl, rfl⟩

/-- A session that is registered again by somebody else stays with its owner, and that somebody is
not registered by it. Nor may the owner start a program once a caller cancelled the scope of the
registration, even though the session is connected again. -/
theorem reconnect_registers_nobody :
    ∃ start, IsBuilt {} ⟨⟨100, 0, 2048, 0⟩, none⟩ true start ∧
      (let h := start.performAll [.registerSession "desk" "ana" "10.0.0.1"]
        let g := (h.registerSession "desk" "bob" "10.0.0.2").2
        (h.registerSession "desk" "bob" "10.0.0.2").1 = .ok () ∧
          (g.sessions.find? "desk").map (fun session => (session.username, session.address)) =
            some ("ana", "10.0.0.1") ∧
          g.isRegistered "bob" = false ∧
          (g.start "bob" "demo").1 = .ok (.error (.unknownUser "bob"))) ∧
      (let h := start.performAll [.registerSession "desk" "ana" "10.0.0.1", .cancelScope (.root 1)]
        let g := (h.registerSession "desk" "ana" "10.0.0.1").2
        (h.registerSession "desk" "ana" "10.0.0.1").1 = .ok () ∧ g.isRegistered "ana" = true ∧
          (g.start "ana" "demo").1 = .ok (.error (.unknownUser "ana"))) :=
  ⟨_, .of_build rfl, ⟨rfl, rfl, rfl, rfl⟩, rfl, rfl, rfl⟩

end Host

end Steward
