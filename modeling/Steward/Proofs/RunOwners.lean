import Steward.Proofs.Enrolment

/-!
# Runs and their owners

A run whose scope was not cancelled belongs to the present registration of its user, and identities
that were not used yet are in no run and in no cancelled scope. So a new run cannot be mistaken for
an old one, and an old one does not survive its owner.
-/

namespace Steward

/-- Whether a scope is made of identities below a bound. -/
def Scope.Below (bound : Nat) : Scope → Prop
  | .root id => id < bound
  | .child owner id => owner < bound ∧ id < bound

/-- Identities below a bound are below a greater one. -/
theorem Scope.Below.mono {bound greater : Nat} {scope : Scope} (hbelow : scope.Below bound)
    (hle : bound ≤ greater) : scope.Below greater := by
  cases scope with
  | root id => exact Nat.lt_of_lt_of_le hbelow hle
  | child owner id =>
    exact ⟨Nat.lt_of_lt_of_le hbelow.1 hle, Nat.lt_of_lt_of_le hbelow.2 hle⟩

/-- Runs of one scope have one identity. -/
theorem Run.id_eq_of_scope {run twin : Run} (hscope : run.scope = twin.scope) :
    run.id = twin.id := by
  simp only [Run.scope, Scope.child.injEq] at hscope
  exact hscope.2

namespace Host

/-- Runs that are not cancelled have their owners, are told apart, and only used identities
occur. -/
structure RunsOwned (h : Host) : Prop where
  owned : ∀ name run, h.runs.find? name = some run → h.isCancelled run.scope = false →
    ∃ allowance, h.enrolled.find? name = some (run.registration, allowance)
  begun : 0 < h.nextId
  runs : ∀ name run, h.runs.find? name = some run → run.scope.Below h.nextId
  apart : ∀ name other run twin, h.runs.find? name = some run → h.runs.find? other = some twin →
    run.id = twin.id → name = other
  users : h.EnrolsIssued
  scopes : ∀ scope ∈ h.cancelled, scope.Below h.nextId

variable {effect : Effect} {h g : Host}

/-- What is cancelled stays cancelled. -/
theorem isCancelled_mono (hkept : ∀ scope ∈ h.cancelled, scope ∈ g.cancelled) {scope : Scope}
    (halive : g.isCancelled scope = false) : h.isCancelled scope = false := by
  rw [Bool.eq_false_iff] at halive ⊢
  intro hcancelled
  refine halive (isCancelled_iff.2 ?_)
  rcases isCancelled_iff.1 hcancelled with hmem | ⟨root, id, hscope, hmem⟩
  · exact .inl (hkept _ hmem)
  · exact .inr ⟨root, id, hscope, hkept _ hmem⟩

/-- No change takes a cancellation back. -/
theorem Change.cancelled_kept (hchange : Change effect h g) :
    ∀ scope ∈ h.cancelled, scope ∈ g.cancelled := by
  intro scope hmem
  cases hchange with
  | ended => exact mem_cancelled_cancel.2 (.inr hmem)
  | cancelled => exact mem_cancelled_cancel.2 (.inr hmem)
  | left => exact mem_cancelled_cancel.2 (.inr hmem)
  | released => simp only [releaseWorker]; split_ifs <;> exact hmem
  | _ => exact hmem

/-- What was cancelled before some changes is cancelled after them. -/
theorem Changes.cancelled_kept {may : Effect → Prop} (hchanges : Changes may h g) {scope : Scope}
    (hmem : scope ∈ h.cancelled) : scope ∈ g.cancelled := by
  refine hchanges.preserves (p := fun k => scope ∈ k.cancelled) ?_ ?_ hmem
  · intro a b hquiet hbefore
    rwa [hquiet.cancelled]
  · exact fun _ hchange hbefore => hchange.cancelled_kept _ hbefore

/-- What is cancelled was cancelled before, ended just now or was cancelled on its own. -/
theorem Change.cancelled_of_mem (hchange : Change effect h g) {scope : Scope}
    (hmem : scope ∈ g.cancelled) :
    scope ∈ h.cancelled ∨
      (∃ name run, effect = .ended name ∧ h.runs.find? name = some run ∧ scope = run.scope) ∨
      (∃ name user, effect = .left name ∧ h.users.find? name = some user ∧ scope = user.scope) ∨
      effect = .cancelled scope ∧ (h.hasIssued scope = true ∨ scope = .background) := by
  cases hchange with
  | @ended _ name run hfound =>
    rcases mem_cancelled_cancel.1 hmem with rfl | hold
    · exact .inr (.inl ⟨name, run, rfl, hfound, rfl⟩)
    · exact .inl hold
  | @left _ name user hfound =>
    rcases mem_cancelled_cancel.1 hmem with rfl | hold
    · exact .inr (.inr (.inl ⟨name, user, rfl, hfound, rfl⟩))
    · exact .inl hold
  | cancelled hissued =>
    rcases mem_cancelled_cancel.1 hmem with rfl | hold
    · exact .inr (.inr (.inr ⟨rfl, hissued⟩))
    · exact .inl hold
  | released =>
    refine .inl ?_
    simp only [releaseWorker] at hmem
    split_ifs at hmem <;> exact hmem
  | _ => exact .inl hmem

/-- A run that is found was there before, or it was launched just now under a new identity. -/
theorem Change.run_of_find? (hchange : Change effect h g) {name : String} {run : Run}
    (hfound : g.runs.find? name = some run) :
    (∃ old, h.runs.find? name = some old ∧ run.scope = old.scope ∧
        run.startedAt = old.startedAt ∧ (effect ≠ .counted name → run = old)) ∨
      ∃ user, h.users.find? name = some user ∧ run.registration = user.registration ∧
        run.id = h.nextId ∧ h.nextId < g.nextId ∧ run.startedAt = h.clock ∧
        effect = .launched name := by
  have hsame (heq : g.runs = h.runs) :
      ∃ old, h.runs.find? name = some old ∧ run.scope = old.scope ∧
        run.startedAt = old.startedAt ∧ (effect ≠ .counted name → run = old) :=
    ⟨run, heq ▸ hfound, rfl, rfl, fun _ => rfl⟩
  cases hchange with
  | launched huser hidle hid hregistration hstart =>
    rw [Table.find?_insert] at hfound
    split_ifs at hfound with hname
    · cases hfound
      exact .inr ⟨_, hname ▸ huser, hregistration, hid, Nat.lt_succ_self _, hstart, hname ▸ rfl⟩
    · exact .inl ⟨run, hfound, rfl, rfl, fun _ => rfl⟩
  | @counted _ other old hrun =>
    rw [Table.find?_insert] at hfound
    split_ifs at hfound with hname
    · cases hfound
      exact .inl ⟨old, hname ▸ hrun, rfl, rfl, fun hne => absurd (hname ▸ rfl) hne⟩
    · exact .inl ⟨run, hfound, rfl, rfl, fun _ => rfl⟩
  | ended =>
    rw [runs_cancel, Table.find?_erase] at hfound
    split_ifs at hfound
    exact .inl ⟨run, hfound, rfl, rfl, fun _ => rfl⟩
  | cancelled => exact .inl (hsame (runs_cancel _ _))
  | left => exact .inl (hsame (runs_cancel _ _))
  | released => exact .inl (hsame (by simp only [releaseWorker]; split_ifs <;> rfl))
  | _ => exact .inl (hsame rfl)

namespace RunsOwned

/-- A run has an identity that was used. -/
theorem id_lt (ho : h.RunsOwned) {name : String} {run : Run}
    (hfound : h.runs.find? name = some run) : run.id < h.nextId :=
  (ho.runs name run hfound).2

/-- After a change the runs are still told apart. -/
theorem apart_change (ho : h.RunsOwned) (hchange : Change effect h g) {name other : String}
    {run twin : Run} (hname : g.runs.find? name = some run)
    (hother : g.runs.find? other = some twin) (hid : run.id = twin.id) : name = other := by
  rcases hchange.run_of_find? hname with ⟨old, hold, hsame, -⟩ | ⟨_, -, -, hnew, -, -, hlaunched⟩
  · rcases hchange.run_of_find? hother with ⟨late, hlate, hlike, -⟩ | ⟨_, -, -, hnew, -, -⟩
    · exact ho.apart name other old late hold hlate
        (by rw [← Run.id_eq_of_scope hsame, hid, Run.id_eq_of_scope hlike])
    · have hused := ho.id_lt hold
      rw [← Run.id_eq_of_scope hsame] at hused
      omega
  · rcases hchange.run_of_find? hother with ⟨late, hlate, hlike, -⟩ | ⟨_, -, -, -, -, -, hagain⟩
    · have hused := ho.id_lt hlate
      rw [← Run.id_eq_of_scope hlike] at hused
      omega
    · rw [hlaunched] at hagain
      cases hagain
      rfl

/-- What a change cancels was made of used identities. -/
theorem below_of_cancelled (ho : h.RunsOwned) (hchange : Change effect h g) {scope : Scope}
    (hmem : scope ∈ g.cancelled) : scope.Below g.nextId := by
  refine Scope.Below.mono ?_ hchange.nextId_le
  rcases hchange.cancelled_of_mem hmem with
    hold | ⟨name, run, -, hfound, rfl⟩ | ⟨name, user, -, hfound, rfl⟩ | ⟨-, hissued | rfl⟩
  · exact ho.scopes _ hold
  · exact ho.runs _ _ hfound
  · exact ho.users _ _ (find?_enrolled hfound)
  · cases scope with
    | root id =>
      simp only [hasIssued, Bool.and_eq_true, decide_eq_true_eq] at hissued
      exact hissued.2
    | child owner id => simpa [hasIssued, Scope.Below] using hissued
  · exact ho.begun

/-- A run that is not cancelled keeps its owner, whatever happens. -/
theorem owned_change (ho : h.RunsOwned) (hchange : Change effect h g) {name : String} {run : Run}
    (hfound : g.runs.find? name = some run) (halive : g.isCancelled run.scope = false) :
    ∃ allowance, g.enrolled.find? name = some (run.registration, allowance) := by
  rcases hchange.run_of_find? hfound with
    ⟨old, hold, hscope, -⟩ | ⟨user, huser, hregistration, -, -, -, rfl⟩
  · have hregistration : run.registration = old.registration := by
      simp only [Run.scope, Scope.child.injEq] at hscope
      exact hscope.1
    have hbefore := isCancelled_mono hchange.cancelled_kept halive
    rw [hscope] at hbefore
    obtain ⟨allowance, howner⟩ := ho.owned name old hold hbefore
    rw [← hregistration] at howner
    by_cases hkeeps : effect.keepsUsers
    · rw [hchange.enrolled_eq hkeeps]
      exact ⟨allowance, howner⟩
    · cases hchange with
      | @joined _ other hnew =>
        have hother : name ≠ other := by
          rintro rfl
          simp [enrolled, hnew] at howner
        rw [enrolled_welcome hnew, Table.find?_map, Table.find?_insert_of_ne _ _ hother, howner]
        exact ⟨_, rfl⟩
      | @left _ other user huser =>
        have hother : name ≠ other := by
          rintro rfl
          rw [find?_enrolled huser] at howner
          simp only [Option.some.injEq, Prod.mk.injEq] at howner
          have hroot : Scope.root run.registration ∈ (h.removeUser name user).cancelled := by
            rw [← howner.1]
            exact mem_cancelled_cancel.2 (.inl rfl)
          exact Bool.eq_false_iff.1 halive (isCancelled_iff.2 (.inr ⟨_, _, rfl, hroot⟩))
        rw [enrolled_removeUser, Table.find?_map, Table.find?_erase_of_ne _ hother, howner]
        exact ⟨_, rfl⟩
      | _ => exact absurd trivial hkeeps
  · rw [hchange.enrolled_eq trivial, find?_enrolled huser, hregistration]
    exact ⟨_, rfl⟩

/-- Every small change keeps runs with their owners. -/
theorem change (ho : h.RunsOwned) (hchange : Change effect h g) : g.RunsOwned where
  owned _ _ := ho.owned_change hchange
  begun := ho.begun.trans_le hchange.nextId_le
  runs name run hfound := by
    rcases hchange.run_of_find? hfound with
      ⟨old, hold, hscope, -⟩ | ⟨user, huser, hregistration, hid, hnext, -⟩
    · rw [hscope]
      exact (ho.runs name old hold).mono hchange.nextId_le
    · have hissued := ho.users name _ (find?_enrolled huser)
      dsimp only at hissued
      simp only [Run.scope, Scope.Below]
      omega
  apart _ _ _ _ := ho.apart_change hchange
  users := ho.users.change hchange
  scopes _ := ho.below_of_cancelled hchange

/-- A run that is not cancelled has a registered owner. -/
theorem owner (ho : h.RunsOwned) {name : String} {run : Run}
    (hfound : h.runs.find? name = some run) (halive : h.isCancelled run.scope = false) :
    ∃ user, h.users.find? name = some user ∧ user.registration = run.registration := by
  obtain ⟨allowance, henrolled⟩ := ho.owned name run hfound halive
  simp only [enrolled, Table.find?_map, Option.map_eq_some_iff, Prod.mk.injEq] at henrolled
  obtain ⟨user, huser, hregistration, -⟩ := henrolled
  exact ⟨user, huser, hregistration⟩

/-- Quiet changes keep runs with their owners. -/
theorem quiet (ho : h.RunsOwned) (hquiet : Quiet h g) : g.RunsOwned where
  owned name run hfound halive := by
    rw [hquiet.runs] at hfound
    rw [hquiet.enrolled_eq]
    refine ho.owned name run hfound (isCancelled_mono ?_ halive)
    rw [hquiet.cancelled]
    exact fun _ hmem => hmem
  begun := ho.begun.trans_le hquiet.nextId
  runs name run hfound := by
    rw [hquiet.runs] at hfound
    exact (ho.runs name run hfound).mono hquiet.nextId
  apart := by
    rw [hquiet.runs]
    exact ho.apart
  users := ho.users.quiet hquiet
  scopes scope hmem := by
    rw [hquiet.cancelled] at hmem
    exact (ho.scopes scope hmem).mono hquiet.nextId

/-- Small changes keep runs with their owners. -/
theorem changes {may : Effect → Prop} (ho : h.RunsOwned) (hchanges : Changes may h g) :
    g.RunsOwned :=
  hchanges.preserves (fun hquiet hp => hp.quiet hquiet) (fun _ hchange hp => hp.change hchange) ho

end RunsOwned

/-- In the empty host there is no run without an owner. -/
theorem runsOwned_empty (policies : Policies) (sampler : Sampler) (timers : Bool)
    (clockEnd : Span) : (empty policies sampler timers clockEnd).RunsOwned where
  owned name run hfound := by simp [empty] at hfound
  begun := Nat.zero_lt_one
  runs name run hfound := by simp [empty] at hfound
  apart name other run twin hfound := by simp [empty] at hfound
  users := enrolsIssued_empty policies sampler timers clockEnd
  scopes scope hmem := by simp [empty] at hmem

/-- In every reachable host runs that are not cancelled have their owners. -/
theorem IsReachable.runsOwned (hreach : h.IsReachable) : h.RunsOwned := by
  obtain ⟨policies, sampler, timers, clockEnd, hchanges⟩ := hreach.changes
  exact (runsOwned_empty policies sampler timers _).changes hchanges

end Host

end Steward
