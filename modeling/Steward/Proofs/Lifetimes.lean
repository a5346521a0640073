import Steward.Proofs.OpenScopes
import Steward.Proofs.RunAccounting

/-!
# Scopes and lifetimes

As long as callers leave the scopes to the host, a scope is cancelled exactly when what lives in it
has ended: that of a registration with the registration, that of a run with the run or with its
registration, that of a worker with the registration under which the slot was taken. The scopes of
what is there are open, and what has ended is remembered as cancelled for good.
-/

namespace Steward.Host

variable {effect : Effect} {h g : Host}

/-! ## What has ended -/

section Ended

variable {may : Effect → Prop} {name : String} {id : Nat}

/-- A registration lasts, or its scope is cancelled. -/
theorem Changes.registration?_or_cancelled (hchanges : Changes may h g)
    (hfound : h.registration? name = some id) :
    g.registration? name = some id ∨ .root id ∈ g.cancelled := by
  refine hchanges.preserves (p := fun k => k.registration? name = some id ∨ .root id ∈ k.cancelled)
    ?_ ?_ (.inl hfound)
  · intro a b hquiet hbefore
    rwa [hquiet.registration?_eq, hquiet.cancelled]
  · intro effect a b _ hchange hbefore
    rcases hbefore with hbefore | hended
    · by_cases hleft : effect = .left name
      · subst hleft
        cases hchange with
        | left huser =>
          simp only [registration?, huser, Option.map_some, Option.some.injEq] at hbefore
          exact .inr (mem_cancelled_cancel.2 (.inl (by rw [← hbefore]; rfl)))
      · exact .inl (hchange.registration?_kept hbefore hleft)
    · exact .inr (hchange.cancelled_kept _ hended)

/-- A run goes on, or its scope is cancelled. -/
theorem Changes.run_or_cancelled (hchanges : Changes may h g) {scope : Scope}
    (hcurrent : (h.runs.find? name).map Run.scope = some scope) :
    (g.runs.find? name).map Run.scope = some scope ∨ scope ∈ g.cancelled := by
  refine hchanges.preserves
    (p := fun k => (k.runs.find? name).map Run.scope = some scope ∨ scope ∈ k.cancelled)
    ?_ ?_ (.inl hcurrent)
  · intro a b hquiet hbefore
    rwa [hquiet.runs, hquiet.cancelled]
  · intro effect a b _ hchange hbefore
    rcases hbefore with hbefore | hended
    · cases hchange with
      | @ended _ other run hrun =>
        by_cases hname : name = other
        · subst hname
          rw [hrun] at hbefore
          cases hbefore
          exact .inr (mem_cancelled_cancel.2 (.inl rfl))
        · rw [runs_cancel, Table.find?_erase_of_ne _ hname]
          exact .inl hbefore
      | @launched _ other user run huser hidle =>
        have hname : name ≠ other := by
          rintro rfl
          rw [hidle] at hbefore
          cases hbefore
        rw [Table.find?_insert_of_ne _ _ hname]
        exact .inl hbefore
      | @counted _ other run hrun =>
        rw [Table.find?_insert]
        split_ifs with hname
        · rw [hname, hrun] at hbefore
          exact .inl hbefore
        · exact .inl hbefore
      | left => exact .inl (by simpa [removeUser, reshare] using hbefore)
      | cancelled => exact .inl (by simpa using hbefore)
      | released =>
        refine .inl ?_
        simp only [releaseWorker]
        split_ifs <;> exact hbefore
      | _ => exact .inl hbefore
    · exact .inr (hchange.cancelled_kept _ hended)

/-- After one action a registration is still there, or its user is not registered. No action both
takes a user out and lets the user in again. -/
theorem perform_registration? (hserved : h.served ≤ h.clock)
    (hfound : h.registration? name = some id) (action : Action) :
    (h.perform action).registration? name = some id ∨
      (h.perform action).registration? name = none := by
  have hchanges := h.perform_changes action hserved
  by_cases hjoins : action.causes (.joined name)
  · have hstays : ¬action.causes (.left name) := by
      rcases hjoins with rfl | ⟨session, address, rfl⟩ <;>
        simp [Action.causes, Action.patrols, Action.runsTasks]
    refine .inl (hchanges.preserves (p := fun k => k.registration? name = some id) ?_ ?_ hfound)
    · intro a b hquiet hbefore
      rwa [hquiet.registration?_eq]
    · intro effect a b hcause hchange hbefore
      refine hchange.registration?_kept hbefore ?_
      rintro rfl
      exact hstays hcause
  · refine hchanges.preserves
      (p := fun k => k.registration? name = some id ∨ k.registration? name = none) ?_ ?_
      (.inl hfound)
    · intro a b hquiet hbefore
      rwa [hquiet.registration?_eq]
    · intro effect a b hcause hchange hbefore
      cases hafter : b.registration? name with
      | none => exact .inr rfl
      | some other =>
        obtain ⟨-, hsame | ⟨rfl, -⟩⟩ := hchange.registration?_cases hafter
        · rcases hbefore with hbefore | hbefore
          · rw [← hsame, hbefore]
            exact .inl rfl
          · rw [hsame] at hbefore
            cases hbefore
        · exact absurd hcause hjoins

/-- What holds throughout some actions holds before them. -/
theorem Throughout.first {p : Host → Prop} {actions : List Action}
    (hthroughout : Throughout p h actions) : p h := by
  cases actions with
  | nil => exact hthroughout
  | cons action rest => exact hthroughout.1

/-- A user was registered all the time exactly if the registration is still there. -/
theorem ScopesOpen.throughout_iff (hopen : h.ScopesOpen) (hserved : h.served ≤ h.clock)
    (hfound : h.registration? name = some id) {later : List Action}
    (hspares : ∀ action ∈ later, action.sparesScopes = true) :
    Throughout (fun g => g.isRegistered name = true) h later ↔
      (h.performAll later).registration? name = some id := by
  induction later generalizing h with
  | nil =>
    simp only [Throughout, performAll, hfound, iff_true]
    exact isRegistered_iff.2 ⟨id, hfound⟩
  | cons action rest ih =>
    have hstep := h.perform_changes action hserved
    have hfirst := hstep.mono fun _ => sparesScopes_of_causes (hspares action List.mem_cons_self)
    have hrest (other : Action) (hother : other ∈ rest) : other.sparesScopes = true :=
      hspares other (List.mem_cons_of_mem _ hother)
    have hknown : h.isRegistered name = true := isRegistered_iff.2 ⟨id, hfound⟩
    simp only [Throughout, performAll, hknown, true_and]
    rcases perform_registration? hserved hfound action with hstays | hgone
    · exact ih (hopen.changes hfirst) (hstep.served_le hserved) hstays hrest
    · constructor
      · intro hthroughout
        obtain ⟨other, hother⟩ := isRegistered_iff.1 hthroughout.first
        rw [hgone] at hother
        cases hother
      · -- The scope was cancelled with the registration, so the registration cannot be back.
        intro hback
        have hended : Scope.root id ∈ (h.perform action).cancelled := by
          rcases hstep.registration?_or_cancelled hfound with hstays | hended
          · rw [hgone] at hstays
            cases hstays
          · exact hended
        have hlater := (h.perform action).performAll_spares hrest (hstep.served_le hserved)
        have hfinal := (hopen.changes hfirst).changes hlater
        exact absurd (hlater.cancelled_kept hended) (hfinal.userScopes name id hback).2

end Ended

/-! ## What is handed out -/

/-- Whether a user is registered before, between and after some actions. -/
def StaysRegistered (h : Host) (user : String) (actions : List Action) : Prop :=
  Throughout (fun g => g.isRegistered user = true) h actions

/-- A scope in a registration is cancelled by itself or with the registration. -/
theorem isCancelled_child {owner id : Nat} :
    h.isCancelled (.child owner id) = true ↔
      .child owner id ∈ h.cancelled ∨ .root owner ∈ h.cancelled := by
  simp [isCancelled]

/-- The scope of a registration is cancelled exactly if the user did not stay registered. -/
theorem ScopesOpen.root_cancelled_iff (hopen : h.ScopesOpen) (hserved : h.served ≤ h.clock)
    {user : String} {id : Nat} (hfound : h.registration? user = some id) {later : List Action}
    (hspares : ∀ action ∈ later, action.sparesScopes = true) :
    .root id ∈ (h.performAll later).cancelled ↔ ¬h.StaysRegistered user later := by
  have hlater := h.performAll_spares hspares hserved
  rw [StaysRegistered, hopen.throughout_iff hserved hfound hspares]
  constructor
  · intro hmem hstays
    exact ((hopen.changes hlater).userScopes user id hstays).2 hmem
  · intro hgone
    exact (hlater.registration?_or_cancelled hfound).resolve_left hgone

/-- The scope of a run is cancelled by itself exactly if the run is not current any more. -/
theorem ScopesOpen.run_cancelled_iff (hopen : h.ScopesOpen) (hserved : h.served ≤ h.clock)
    {user : String} {scope : Scope} (hcurrent : (h.run? user).map Run.scope = some scope)
    {later : List Action} (hspares : ∀ action ∈ later, action.sparesScopes = true) :
    scope ∈ (h.performAll later).cancelled ↔
      ((h.performAll later).run? user).map Run.scope ≠ some scope := by
  have hlater := h.performAll_spares hspares hserved
  constructor
  · intro hmem hstill
    obtain ⟨run, hrun, rfl⟩ := Option.map_eq_some_iff.1 hstill
    exact (hopen.changes hlater).runScopes user run hrun hmem
  · intro hgone
    exact (hlater.run_or_cancelled hcurrent).resolve_left hgone

/-- A scope in a registration that is open and not that of a run. -/
structure Detached (h : Host) (owner id : Nat) : Prop where
  issued : id < h.nextId
  spared : .child owner id ∉ h.cancelled
  runless : ∀ name run, h.runs.find? name = some run → run.scope ≠ .child owner id

/-- A scope that is not that of a run is never cancelled by itself. -/
theorem Detached.changes {owner id : Nat} (hdetached : h.Detached owner id)
    (hchanges : Changes Effect.sparesScopes h g) : g.Detached owner id := by
  refine hchanges.preserves (p := fun k => k.Detached owner id) ?_ ?_ hdetached
  · intro a b hquiet hbefore
    constructor
    · exact hbefore.issued.trans_le hquiet.nextId
    · rw [hquiet.cancelled]
      exact hbefore.spared
    · rw [hquiet.runs]
      exact hbefore.runless
  · intro effect a b hspares hchange hbefore
    constructor
    · exact hbefore.issued.trans_le hchange.nextId_le
    · intro hmem
      rcases hchange.cancelled_of_mem hmem with
        hold | ⟨name, run, -, hfound, hscope⟩ | ⟨_, user, -, -, hscope⟩ | ⟨rfl, -⟩
      · exact hbefore.spared hold
      · exact hbefore.runless name run hfound hscope.symm
      · cases hscope
      · cases hspares
    · intro name run hfound
      rcases hchange.run_of_find? hfound with ⟨old, hold, hsame, -⟩ | ⟨_, -, -, hnew, -, -⟩
      · rw [hsame]
        exact hbefore.runless name old hold
      · intro hscope
        simp only [Run.scope, Scope.child.injEq] at hscope
        have hissued := hbefore.issued
        omega

/-- A program that was started runs in a scope of the present registration. -/
theorem started_eq {user program : String} {handle : Handle}
    (hstart : (h.start user program).1 = .ok (.ok handle)) :
    ∃ owner id, handle.scope = .child owner id ∧
      (h.start user program).2.registration? user = some owner ∧
      ((h.start user program).2.run? user).map Run.scope = some handle.scope := by
  obtain ⟨owner, run, howner, hrun, hscope, hregistration, -⟩ := start_eq_ok hstart
  refine ⟨owner.registration, run.id, ?_, ?_, ?_⟩
  · rw [hscope, Run.scope, hregistration]
  · have hchanges : Changes (· ≠ .left user) h (h.start user program).2 :=
      changes_start (by simp) (by simp) program
    refine hchanges.preserves
      (p := fun k => k.registration? user = some owner.registration) ?_ ?_ ?_
    · intro a b hquiet hbefore
      rwa [hquiet.registration?_eq]
    · exact fun hstays hchange hbefore => hchange.registration?_kept hbefore hstays
    · simp [registration?, howner]
  · rw [run?, hrun, hscope, Option.map_some]

/-- A worker slot that was taken has a new scope of the present registration. -/
theorem hired_eq {user : String} {permit : Permit}
    (hacquire : (h.acquireWorker user).1 = .ok permit) :
    h.registration? user = some permit.registration ∧ permit.id = h.nextId ∧
      (h.acquireWorker user).2.registration? user = some permit.registration ∧
      (h.acquireWorker user).2.runs = h.runs ∧
      (h.acquireWorker user).2.cancelled = h.cancelled ∧
      (h.acquireWorker user).2.nextId = h.nextId + 1 := by
  unfold acquireWorker at hacquire ⊢
  cases howner : h.user? user with
  | error fault =>
    rw [howner] at hacquire
    cases hacquire
  | ok owner =>
    rw [howner] at hacquire
    dsimp only at hacquire ⊢
    split_ifs at hacquire ⊢
    · cases hacquire
      have hfound := user?_eq_ok.1 howner
      refine ⟨?_, rfl, ?_, rfl, rfl, rfl⟩
      · simp [registration?, hfound]
      · simp [registration?, Host.reportUnknown]
    · cases hacquire

/-- A scope is cancelled exactly when what lives in it has ended. The scope of a run that was
started is cancelled once the run is not current any more or its user did not stay registered; the
scope of a worker, and the scope that a user asked for, once the user did not stay registered, and
these are never cancelled by the end of a run, nor opened again by a new registration. -/
theorem scopes_follow_lifetimes (horderly : h.IsOrderly) (user : String) (later : List Action)
    (hspares : ∀ action ∈ later, action.sparesScopes = true) :
    (∀ program handle, (h.start user program).1 = .ok (.ok handle) →
      let started := (h.start user program).2
      ((started.performAll later).isCancelled handle.scope = true ↔
        ((started.performAll later).run? user).map Run.scope ≠ some handle.scope ∨
          ¬started.StaysRegistered user later)) ∧
      (∀ permit, (h.acquireWorker user).1 = .ok permit →
        let hired := (h.acquireWorker user).2
        ((hired.performAll later).isCancelled permit.scope = true ↔
          ¬hired.StaysRegistered user later)) ∧
      (∀ scope, (h.userScope user).1 = .ok scope →
        ((h.performAll later).isCancelled scope = true ↔ ¬h.StaysRegistered user later)) ∧
      ∀ name, h.isRegistered name = true →
        ∃ scope, (h.userScope name).1 = .ok scope ∧ h.isCancelled scope = false := by
  have hafter (action : Action) (hspared : action.sparesScopes = true) :
      (h.perform action).IsOrderly := by
    have hone : ∀ other ∈ [action], other.sparesScopes = true := by simpa using hspared
    exact horderly.performAll hone
  have hscope (name : String) :
      (h.userScope name).1 = (h.user? name).map User.scope := by
    unfold userScope
    cases h.user? name <;> rfl
  refine ⟨?_, ?_, ?_, ?_⟩
  · intro program handle hstart
    have hstarted : (h.start user program).2.IsOrderly := hafter (.start user program) rfl
    obtain ⟨owner, id, hchild, hregistration, hcurrent⟩ := started_eq hstart
    have hserved := hstarted.isReachable.served_le
    have hown := hstarted.scopesOpen.run_cancelled_iff hserved hcurrent hspares
    have hroot := hstarted.scopesOpen.root_cancelled_iff hserved hregistration hspares
    dsimp only
    rw [← hown, ← hroot, hchild, isCancelled_child]
  · intro permit hacquire
    have hhired : (h.acquireWorker user).2.IsOrderly := hafter (.acquireWorker user) rfl
    obtain ⟨hbefore, hid, hregistration, hruns, hcancelled, hnext⟩ := hired_eq hacquire
    have hserved := hhired.isReachable.served_le
    have hroot := hhired.scopesOpen.root_cancelled_iff hserved hregistration hspares
    have howned := horderly.scopesOpen.toRunsOwned
    have hdetached : (h.acquireWorker user).2.Detached permit.registration permit.id := by
      constructor
      · omega
      · rw [hcancelled, hid]
        exact fun hmem => Nat.lt_irrefl _ (howned.scopes _ hmem).2
      · rw [hruns, hid]
        intro name run hfound hsame
        have hissued := howned.runs name run hfound
        rw [hsame] at hissued
        exact Nat.lt_irrefl _ hissued.2
    have hown := (hdetached.changes (performAll_spares _ hspares hserved)).spared
    dsimp only
    rw [← hroot, Permit.scope, isCancelled_child, or_iff_right hown]
  · intro scope hasked
    rw [hscope] at hasked
    cases howner : h.user? user with
    | error fault =>
      rw [howner] at hasked
      cases hasked
    | ok owner =>
      rw [howner] at hasked
      cases hasked
      have hregistration : h.registration? user = some owner.registration := by
        simp [registration?, user?_eq_ok.1 howner]
      have hserved := horderly.isReachable.served_le
      rw [← horderly.scopesOpen.root_cancelled_iff hserved hregistration hspares]
      simp [User.scope, isCancelled]
  · intro name hknown
    obtain ⟨id, hregistration⟩ := isRegistered_iff.1 hknown
    obtain ⟨owner, hfound, rfl⟩ := Option.map_eq_some_iff.1 hregistration
    refine ⟨owner.scope, ?_, ?_⟩
    · rw [hscope, user?_eq_ok.2 hfound]
      rfl
    · have hspared := (horderly.scopesOpen.userScopes name _ hregistration).2
      simpa [User.scope, isCancelled] using hspared

/-- A run that is stopped takes its own scope along, and not that of a worker. -/
theorem scopes_follow_lifetimes_of_stop :
    ∃ start, IsBuilt {} ⟨⟨100, 0, 2048, 0⟩, none⟩ true start ∧
      let h := start.performAll [.registerUser "ana", .acquireWorker "ana"]
      ∃ handle permit, (h.start "ana" "demo").1 = .ok (.ok handle) ∧
        (h.acquireWorker "ana").1 = .ok permit ∧
        ((h.start "ana" "demo").2.performAll [.stop "ana", .start "ana" "next"]).isCancelled
          handle.scope = true ∧
        ¬((h.acquireWorker "ana").2.performAll [.stop "ana", .start "ana" "next"]).isCancelled
          permit.scope = true := by
  refine ⟨_, .of_build rfl, _, _, rfl, rfl, ?_⟩
  have hbuilt : IsBuilt {} ⟨⟨100, 0, 2048, 0⟩, none⟩ true _ := .of_build rfl
  have horderly : IsOrderly _ :=
    ⟨_, _, _, _, [.registerUser "ana", .acquireWorker "ana"], hbuilt, by decide, rfl⟩
  obtain ⟨hruns, hworkers, -, -⟩ := scopes_follow_lifetimes horderly "ana"
    [.stop "ana", .start "ana" "next"] (by decide)
  refine ⟨(hruns "demo" _ rfl).2 (.inl (by decide)), fun hcancelled => ?_⟩
  exact (hworkers _ rfl).1 hcancelled ⟨rfl, rfl, rfl⟩

end Steward.Host
