import Steward.Proofs.Deeds
import Steward.Proofs.FairShares
import Steward.Proofs.Lifetimes

/-!
# Worker slots

A registration and the worker slots that were taken under it share a counter: taking a slot counts
up, giving it back counts down, also after the registration has ended. The counter always says how
many of these slots are in use, so it never falls below zero, a slot that is given back late counts
against nobody, and a user's record shows the counter of the present registration.
-/

namespace Steward

/-- Whether a change leaves the worker slots alone. -/
def Effect.keepsSlots : Effect → Prop
  | .hired _ | .released _ => False
  | _ => True

namespace Host

/-- The worker slots in use that were taken under a registration. -/
def slotsUnder (h : Host) (registration : Nat) : Nat :=
  h.permits.countP fun permit => permit.registration = registration

/-- How far an action moves the counter of a registration. -/
def slotStep (h : Host) (registration : Nat) : Action → Int
  | .acquireWorker user =>
    match (h.acquireWorker user).1 with
    | .ok permit => if permit.registration = registration then 1 else 0
    | .error _ => 0
  | .releaseWorker permit =>
    if permit ∈ h.permits ∧ permit.registration = registration then -1 else 0
  | _ => 0

/-- The counter of a registration after some actions, where nothing keeps it above zero. -/
def slotCounter (h : Host) (registration : Nat) : List Action → Int
  | [] => 0
  | action :: rest =>
    h.slotStep registration action + (h.perform action).slotCounter registration rest

/-- The worker slots of a name, under any registration, whose scope is not cancelled. -/
def openSlots (h : Host) (name : String) : Nat :=
  h.permits.countP fun permit => permit.user = name && !h.isCancelled permit.scope

/-- The registration of each user, and the worker slots that the record shows. -/
def posts (h : Host) : Table (Nat × Nat) :=
  h.users.map fun user => (user.registration, user.workers)

variable {effect : Effect} {h g : Host}

/-! ## What the records show -/

/-- What a record shows about its user. -/
theorem find?_posts {name : String} {user : User} (hfound : h.users.find? name = some user) :
    h.posts.find? name = some (user.registration, user.workers) := by
  simp [posts, hfound]

/-- Registrations are among what records show. -/
theorem registration?_of_posts {name : String} {id workers : Nat}
    (hfound : h.posts.find? name = some (id, workers)) : h.registration? name = some id := by
  simp only [posts, Table.find?_map, Option.map_eq_some_iff, Prod.mk.injEq] at hfound
  obtain ⟨user, huser, rfl, -⟩ := hfound
  simp [registration?, huser]

/-- Replacing a record changes what is shown about its user only. -/
theorem posts_insert (users : Table User) (name : String) (user : User) :
    (users.insert name user).map (fun other => (other.registration, other.workers)) =
      (users.map fun other => (other.registration, other.workers)).insert name
        (user.registration, user.workers) :=
  Table.map_insert _ _ _ _

/-- A record of the same registration with the same slots shows the same. -/
theorem posts_update {name : String} {old new : User} (hfound : h.users.find? name = some old)
    (hregistration : new.registration = old.registration) (hworkers : new.workers = old.workers) :
    (h.users.insert name new).map (fun user => (user.registration, user.workers)) = h.posts := by
  rw [posts_insert, hregistration, hworkers]
  exact Table.insert_of_find? (find?_posts hfound)

/-- Who joins has no worker slots. -/
theorem posts_welcome (h : Host) (name : String) :
    (h.welcome name).posts = h.posts.insert name (h.nextId, 0) := by
  simp only [posts, welcome, reshare, Table.map_map]
  exact posts_insert _ _ _

/-- Who leaves is not shown any more. -/
theorem posts_removeUser (h : Host) (name : String) (user : User) :
    (h.removeUser name user).posts = h.posts.erase name := by
  rw [posts, users_removeUser, Table.map_map, posts, ← Table.map_erase]
  rfl

/-- Changes that are not about slots or registrations show the same slots. -/
theorem Change.posts_eq (hchange : Change effect h g) (hslots : effect.keepsSlots)
    (husers : effect.keepsUsers) : g.posts = h.posts := by
  cases hchange with
  | joined => exact husers.elim
  | left => exact husers.elim
  | hired => exact hslots.elim
  | released => exact hslots.elim
  | touched hfound => exact posts_update hfound rfl rfl
  | estimated hfound => exact posts_update hfound rfl rfl
  | surveyed =>
    simp only [posts, spreadUsage, Table.map_map]
    rfl
  | _ => simp [posts]

/-- Changes that are not about slots leave the slots in use. -/
theorem Change.permits_eq (hchange : Change effect h g) (hslots : effect.keepsSlots) :
    g.permits = h.permits := by
  cases hchange with
  | hired => exact hslots.elim
  | released => exact hslots.elim
  | _ => simp [welcome, removeUser, reshare, spreadUsage]

/-- A slot that is given back lowers what its user's record shows, if the registration is still the
one under which it was taken. -/
theorem posts_releaseWorker {permit : Permit} (hheld : permit ∈ h.permits) :
    (∃ user, h.users.find? permit.user = some user ∧ user.registration = permit.registration ∧
        (h.releaseWorker permit).users =
          h.users.insert permit.user { user with workers := user.workers - 1 } ∧
        (h.releaseWorker permit).posts =
          h.posts.insert permit.user (permit.registration, user.workers - 1)) ∨
      h.registration? permit.user ≠ some permit.registration ∧
        (h.releaseWorker permit).users = h.users := by
  have hcontains : h.permits.contains permit = true := List.contains_iff_mem.2 hheld
  cases hfound : h.users.find? permit.user with
  | none => exact .inr ⟨by simp [registration?, hfound], by simp [releaseWorker, hheld, hfound]⟩
  | some user =>
    by_cases hsame : user.registration = permit.registration
    · refine .inl ⟨user, rfl, hsame, ?_, ?_⟩
      · simp [releaseWorker, hheld, hfound, hsame]
      · have husers : (h.releaseWorker permit).users =
            h.users.insert permit.user { user with workers := user.workers - 1 } := by
          simp [releaseWorker, hheld, hfound, hsame]
        rw [posts, husers, posts_insert, hsame, posts]
    · exact .inr ⟨by simp [registration?, hfound, hsame],
        by simp [releaseWorker, hheld, hfound, hsame]⟩

/-- A slot that is given back is in use no more. -/
theorem permits_releaseWorker {permit : Permit} (hheld : permit ∈ h.permits) :
    (h.releaseWorker permit).permits = h.permits.erase permit := by
  simp [releaseWorker, hheld]

/-- A slot that is given back is one less under its registration. -/
theorem slotsUnder_releaseWorker {permit : Permit} (hheld : permit ∈ h.permits)
    (registration : Nat) :
    (h.releaseWorker permit).slotsUnder registration +
        (if permit.registration = registration then 1 else 0) = h.slotsUnder registration := by
  have hperm := List.perm_cons_erase hheld
  rw [slotsUnder, permits_releaseWorker hheld, slotsUnder, hperm.countP_eq, List.countP_cons]
  simp

/-- A slot in use was in use before, or it was taken just now under its user's registration. -/
theorem Change.permit_of_mem (hchange : Change effect h g) {permit : Permit}
    (hmem : permit ∈ g.permits) :
    permit ∈ h.permits ∨ effect = .hired permit.user ∧
      h.registration? permit.user = some permit.registration := by
  by_cases hslots : effect.keepsSlots
  · rw [hchange.permits_eq hslots] at hmem
    exact .inl hmem
  · cases hchange with
    | hired hfound =>
      rcases List.mem_cons.1 hmem with rfl | hold
      · exact .inr ⟨rfl, by simp [registration?, hfound]⟩
      · exact .inl hold
    | released hheld =>
      rw [permits_releaseWorker hheld] at hmem
      exact .inl (List.mem_of_mem_erase hmem)
    | _ => exact absurd trivial hslots

/-! ## Counting -/

/-- Every record shows the slots in use under its registration. Slots belong to the user whose
registration they were taken under, and when that has ended, its scope is cancelled. -/
structure SlotsCounted (h : Host) : Prop where
  counted : ∀ name id workers, h.posts.find? name = some (id, workers) → workers = h.slotsUnder id
  apart : ∀ name other id, h.registration? name = some id → h.registration? other = some id →
    name = other
  registered : h.EnrolsIssued
  issued : ∀ permit ∈ h.permits, permit.registration < h.nextId
  owned : ∀ permit ∈ h.permits, ∀ name, h.registration? name = some permit.registration →
    permit.user = name
  ended : ∀ permit ∈ h.permits, h.registration? permit.user = some permit.registration ∨
    .root permit.registration ∈ h.cancelled
  fair : h.SharesFairly
  capped : ∀ registration, h.slotsUnder registration ≤ h.policies.system.maxWorkers

namespace SlotsCounted

/-- Quiet changes keep slots counted. -/
theorem quiet (hs : h.SlotsCounted) (hquiet : Quiet h g) : g.SlotsCounted where
  counted := by
    rw [posts, hquiet.users]
    unfold slotsUnder
    rw [hquiet.permits]
    exact hs.counted
  apart name other id := by
    rw [hquiet.registration?_eq, hquiet.registration?_eq]
    exact hs.apart name other id
  registered := hs.registered.quiet hquiet
  issued permit hmem := by
    rw [hquiet.permits] at hmem
    exact (hs.issued permit hmem).trans_le hquiet.nextId
  owned permit hmem name hname := by
    rw [hquiet.permits] at hmem
    rw [hquiet.registration?_eq] at hname
    exact hs.owned permit hmem name hname
  ended permit hmem := by
    rw [hquiet.permits] at hmem
    rw [hquiet.registration?_eq, hquiet.cancelled]
    exact hs.ended permit hmem
  fair := hs.fair.quiet hquiet
  capped registration := by
    rw [slotsUnder, hquiet.permits, hquiet.policies]
    exact hs.capped registration

/-- A user may hold as many slots as the policy says. -/
theorem maxWorkers_eq (hs : h.SlotsCounted) {name : String} {user : User}
    (hfound : h.users.find? name = some user) :
    user.allowance.maxWorkers = h.policies.system.maxWorkers := by
  rw [hs.fair.allowance_eq hfound]
  rfl

section Change

variable (hs : h.SlotsCounted) (hchange : Change effect h g)
include hs hchange

/-- After a change every record shows the slots in use under its registration. -/
theorem counted_change {name : String} {id workers : Nat}
    (hfound : g.posts.find? name = some (id, workers)) : workers = g.slotsUnder id := by
  by_cases hslots : effect.keepsSlots
  · rw [slotsUnder, hchange.permits_eq hslots]
    by_cases husers : effect.keepsUsers
    · rw [hchange.posts_eq hslots husers] at hfound
      exact hs.counted name id workers hfound
    · cases hchange with
      | joined =>
        rw [posts_welcome, Table.find?_insert] at hfound
        split_ifs at hfound with hname
        · cases hfound
          refine (List.countP_eq_zero.2 fun permit hmem => ?_).symm
          simpa using (hs.issued permit hmem).ne
        · exact hs.counted name id workers hfound
      | left =>
        rw [posts_removeUser, Table.find?_erase] at hfound
        split_ifs at hfound with hname
        exact hs.counted name id workers hfound
      | _ => exact absurd trivial husers
  · cases hchange with
    | @hired _ other user huser =>
      rw [posts, posts_insert, Table.find?_insert] at hfound
      rw [slotsUnder, List.countP_cons]
      split_ifs at hfound with hname
      · cases hfound
        rw [if_pos (by simp), hs.counted other _ _ (find?_posts huser), slotsUnder]
      · have hdifferent : user.registration ≠ id := fun hsame => by
          refine hname (hs.apart name other id (registration?_of_posts hfound) ?_)
          simp [registration?, huser, hsame]
        rw [if_neg (by simpa using hdifferent)]
        exact hs.counted name id workers hfound
    | @released _ permit hheld =>
      have hless := slotsUnder_releaseWorker hheld id
      rcases posts_releaseWorker hheld with ⟨user, huser, hcurrent, -, hposts⟩ | ⟨hgone, husers⟩
      · rw [hposts, Table.find?_insert] at hfound
        split_ifs at hfound with hname
        · cases hfound
          have hcounted := hs.counted _ _ _ (find?_posts huser)
          rw [hcurrent] at hcounted
          rw [if_pos rfl] at hless
          omega
        · have hdifferent : permit.registration ≠ id := fun hsame => by
            refine hname (hs.owned permit hheld name ?_).symm
            rw [hsame, registration?_of_posts hfound]
          rw [if_neg hdifferent] at hless
          rw [hs.counted name id workers hfound]
          exact hless.symm
      · rw [posts, husers] at hfound
        have hdifferent : permit.registration ≠ id := fun hsame => by
          have hname := registration?_of_posts (h := h) hfound
          rw [← hsame] at hname
          exact hgone (hs.owned permit hheld name hname ▸ hname)
        rw [if_neg hdifferent] at hless
        rw [hs.counted name id workers hfound]
        exact hless.symm
    | _ => exact absurd trivial hslots

/-- After a change no registration has more slots than the policy allows. -/
theorem capped_change (registration : Nat) :
    g.slotsUnder registration ≤ g.policies.system.maxWorkers := by
  rw [hchange.sameBuild.policies]
  by_cases hslots : effect.keepsSlots
  · rw [slotsUnder, hchange.permits_eq hslots]
    exact hs.capped registration
  · cases hchange with
    | hired huser hroom =>
      rw [slotsUnder, List.countP_cons]
      split_ifs with hsame
      · have hcounted := hs.counted _ _ _ (find?_posts huser)
        rw [hs.maxWorkers_eq huser, hcounted] at hroom
        rw [← of_decide_eq_true hsame]
        exact hroom
      · exact hs.capped registration
    | released hheld =>
      have hless := slotsUnder_releaseWorker hheld registration
      have hcapped := hs.capped registration
      omega
    | _ => exact absurd trivial hslots

/-- Every small change keeps slots counted. -/
theorem change : g.SlotsCounted where
  counted _ _ _ := hs.counted_change hchange
  apart _ _ _ := hchange.registrations_apart hs.registered hs.apart
  registered := hs.registered.change hchange
  issued permit hmem := by
    refine Nat.lt_of_lt_of_le ?_ hchange.nextId_le
    rcases hchange.permit_of_mem hmem with hold | ⟨-, hpresent⟩
    · exact hs.issued permit hold
    · exact hs.registered.registration?_lt hpresent
  owned permit hmem name hname := by
    rcases hchange.permit_of_mem hmem with hold | ⟨hhired, hpresent⟩
    · obtain ⟨-, hbefore | ⟨-, hnew⟩⟩ := hchange.registration?_cases hname
      · exact hs.owned permit hold name hbefore
      · exact absurd hnew (hs.issued permit hold).ne
    · obtain ⟨-, hbefore | ⟨hjoined, -⟩⟩ := hchange.registration?_cases hname
      · exact hs.apart _ _ _ hpresent hbefore
      · rw [hhired] at hjoined
        cases hjoined
  ended permit hmem := by
    have hone : Changes (fun _ => True) h g := .single trivial hchange
    rcases hchange.permit_of_mem hmem with hold | ⟨-, hpresent⟩
    · rcases hs.ended permit hold with hpresent | hended
      · exact hone.registration?_or_cancelled hpresent
      · exact .inr (hchange.cancelled_kept _ hended)
    · exact hone.registration?_or_cancelled hpresent
  fair := hs.fair.change hchange
  capped := hs.capped_change hchange

end Change

/-- Small changes keep slots counted. -/
theorem changes {may : Effect → Prop} (hs : h.SlotsCounted) (hchanges : Changes may h g) :
    g.SlotsCounted :=
  hchanges.preserves (fun hquiet hp => hp.quiet hquiet) (fun _ hchange hp => hp.change hchange) hs

end SlotsCounted

/-- In the empty host no slot is in use. -/
theorem slotsCounted_empty (policies : Policies) (sampler : Sampler) (timers : Bool)
    (clockEnd : Span) : (empty policies sampler timers clockEnd).SlotsCounted where
  counted name id workers hfound := by simp [posts, empty] at hfound
  apart name other id hname := by simp [registration?, empty] at hname
  registered := enrolsIssued_empty policies sampler timers clockEnd
  issued permit hmem := by cases hmem
  owned permit hmem := by cases hmem
  ended permit hmem := by cases hmem
  fair := sharesFairly_empty policies sampler timers clockEnd
  capped registration := Nat.zero_le _

/-- In every reachable host slots are counted. -/
theorem IsReachable.slotsCounted (hreach : h.IsReachable) : h.SlotsCounted := by
  obtain ⟨policies, sampler, timers, clockEnd, hchanges⟩ := hreach.changes
  exact (slotsCounted_empty policies sampler timers _).changes hchanges

/-! ## Taking and giving back -/

section Acquire

variable {name : String} {user : User}

/-- A user with a free slot gets it, under the present registration. -/
theorem acquireWorker_of_room (hfound : h.users.find? name = some user)
    (hroom : user.workers < user.allowance.maxWorkers) :
    (h.acquireWorker name).1 = .ok ⟨h.nextId, name, user.registration⟩ ∧
      (h.acquireWorker name).2.permits = ⟨h.nextId, name, user.registration⟩ :: h.permits := by
  simp [acquireWorker, user?_eq_ok.2 hfound, hroom, reportUnknown]

/-- A user without a free slot gets none, and nothing changes. -/
theorem acquireWorker_of_full (hfound : h.users.find? name = some user)
    (hfull : user.allowance.maxWorkers ≤ user.workers) :
    ∃ fault, h.acquireWorker name = (.error fault, h) := by
  have hnone : ¬user.workers < user.allowance.maxWorkers := by omega
  simp [acquireWorker, user?_eq_ok.2 hfound, hnone, reportUnknown, Fault.isNotFound]

/-- Who is not registered gets no slot, and only a report is left. -/
theorem acquireWorker_of_unknown (hnone : h.users.find? name = none) :
    h.acquireWorker name = (.error (.unknownUser name),
      h.emit (.unknownResource "acquire_worker" name (.unknownUser name))) := by
  rw [acquireWorker, user?_eq_error.2 ⟨hnone, rfl⟩]
  rfl

end Acquire

/-- Only taking and giving back a slot changes the slots in use. -/
theorem permits_perform (hserved : h.served ≤ h.clock) {action : Action}
    (hacquire : ∀ name, action ≠ .acquireWorker name)
    (hrelease : ∀ permit, action ≠ .releaseWorker permit) :
    (h.perform action).permits = h.permits := by
  have hslots (effect : Effect) (hcause : action.causes effect) : effect.keepsSlots := by
    cases effect with
    | hired name => exact hacquire name hcause
    | released permit => exact hrelease permit hcause
    | _ => trivial
  refine (h.perform_changes action hserved).preserves
    (p := fun k => k.permits = h.permits) ?_ ?_ rfl
  · exact fun hquiet heq => hquiet.permits.trans heq
  · exact fun hcause hchange heq => (hchange.permits_eq (hslots _ hcause)).trans heq

/-- An action moves the slots in use under a registration as far as its counter. -/
theorem slotsUnder_perform (hserved : h.served ≤ h.clock) (registration : Nat) (action : Action) :
    ((h.perform action).slotsUnder registration : Int) =
      h.slotsUnder registration + h.slotStep registration action := by
  cases action with
  | acquireWorker name =>
    simp only [perform, slotStep]
    cases hfound : h.users.find? name with
    | none =>
      rw [acquireWorker_of_unknown hfound]
      simp [slotsUnder, emit]
    | some user =>
      by_cases hroom : user.workers < user.allowance.maxWorkers
      · obtain ⟨hresult, hpermits⟩ := acquireWorker_of_room hfound hroom
        rw [slotsUnder, hpermits, hresult, List.countP_cons, slotsUnder]
        simp only [decide_eq_true_eq]
        split_ifs <;> rfl
      · obtain ⟨fault, hresult⟩ := acquireWorker_of_full hfound (Nat.le_of_not_lt hroom)
        rw [hresult, Int.add_zero]
  | releaseWorker permit =>
    simp only [perform, slotStep]
    by_cases hheld : permit ∈ h.permits
    · have hless := slotsUnder_releaseWorker hheld registration
      simp only [hheld, true_and]
      split_ifs at hless ⊢ <;> omega
    · simp [releaseWorker, hheld]
  | _ =>
    rw [slotsUnder, permits_perform hserved (by simp) (by simp)]
    exact (Int.add_zero _).symm

/-- What is done to a host moves the slots in use under a registration as far as its counter. -/
theorem slotsUnder_performAll (hserved : h.served ≤ h.clock) (registration : Nat)
    (actions : List Action) :
    ((h.performAll actions).slotsUnder registration : Int) =
      h.slotsUnder registration + h.slotCounter registration actions := by
  induction actions generalizing h with
  | nil => exact (Int.add_zero _).symm
  | cons action rest ih =>
    have hafter := (h.perform_changes action hserved).served_le hserved
    rw [performAll, ih hafter, slotsUnder_perform hserved, slotCounter, Int.add_assoc]

/-! ## Conservation -/

namespace SlotsCounted

section Counted

variable (hs : h.SlotsCounted)
include hs

/-- A record shows the slots in use under its registration, and they are no more than allowed. -/
theorem workers_eq {name : String} {user : User} (hfound : h.users.find? name = some user) :
    user.workers = h.slotsUnder user.registration :=
  hs.counted _ _ _ (find?_posts hfound)

/-- A registered user gets a slot exactly if there is a free one. -/
theorem acquireWorker_iff {name : String} {user : User}
    (hfound : h.users.find? name = some user) :
    (∃ permit, (h.acquireWorker name).1 = .ok permit) ↔
      user.workers < h.policies.system.maxWorkers := by
  rw [← hs.maxWorkers_eq hfound]
  constructor
  · rintro ⟨permit, hok⟩
    by_contra hfull
    obtain ⟨fault, hresult⟩ := acquireWorker_of_full hfound (Nat.le_of_not_lt hfull)
    rw [hresult] at hok
    cases hok
  · exact fun hroom => ⟨_, (acquireWorker_of_room hfound hroom).1⟩

/-- The open slots of a name are at most those of the present registration. -/
theorem openSlots_le (name : String) : h.openSlots name ≤ h.policies.system.maxWorkers := by
  have hpresent : ∀ permit ∈ h.permits,
      (permit.user = name && !h.isCancelled permit.scope) = true →
        h.registration? name = some permit.registration := by
    intro permit hmem hopen
    simp only [Bool.and_eq_true, decide_eq_true_eq, Bool.not_eq_true'] at hopen
    obtain ⟨rfl, hscope⟩ := hopen
    refine (hs.ended permit hmem).resolve_right fun hended => ?_
    rw [Permit.scope, isCancelled_child.2 (.inr hended)] at hscope
    cases hscope
  cases hname : h.registration? name with
  | none =>
    have hnone : h.openSlots name = 0 :=
      List.countP_eq_zero.2 fun permit hmem hopen => by
        rw [hpresent permit hmem hopen] at hname
        cases hname
    omega
  | some id =>
    refine le_trans (List.countP_mono_left fun permit hmem hopen => ?_) (hs.capped id)
    have hsame := hpresent permit hmem hopen
    rw [hname, Option.some_inj] at hsame
    exact decide_eq_true hsame.symm

/-- A slot that is given back under the present registration is one less in its user's record, which
shows one at least. -/
theorem releaseWorker_present {permit : Permit} {user : User} (hheld : permit ∈ h.permits)
    (hfound : h.users.find? permit.user = some user)
    (hcurrent : user.registration = permit.registration) :
    0 < user.workers ∧ (h.releaseWorker permit).users =
      h.users.insert permit.user { user with workers := user.workers - 1 } := by
  refine ⟨?_, ?_⟩
  · rw [hs.workers_eq hfound, hcurrent]
    exact List.countP_pos_iff.2 ⟨permit, hheld, decide_eq_true rfl⟩
  · rcases posts_releaseWorker hheld with ⟨other, hother, -, husers, -⟩ | ⟨hgone, -⟩
    · rw [hfound] at hother
      cases hother
      exact husers
    · exact absurd (by simp [registration?, hfound, hcurrent]) hgone

end Counted

end SlotsCounted

/-- Who gets no slot leaves the host as it was; if the name is not registered, this is reported. -/
theorem acquireWorker_of_error {name : String} {fault : Fault}
    (hresult : (h.acquireWorker name).1 = .error fault) :
    (h.acquireWorker name).2 =
      if h.isRegistered name then h
      else h.emit (.unknownResource "acquire_worker" name fault) := by
  cases hfound : h.users.find? name with
  | none =>
    rw [acquireWorker_of_unknown hfound] at hresult ⊢
    cases hresult
    simp [isRegistered, Table.contains, hfound]
  | some user =>
    by_cases hroom : user.workers < user.allowance.maxWorkers
    · rw [(acquireWorker_of_room hfound hroom).1] at hresult
      cases hresult
    · obtain ⟨other, hsame⟩ := acquireWorker_of_full hfound (Nat.le_of_not_lt hroom)
      simp [hsame, isRegistered, Table.contains, hfound]

/-- The slots in a report are those of all records. -/
theorem report_workers (h : Host) :
    h.report.workers = total (h.users.values.map User.workers) := by
  simp [report, systemReport, SystemReport.workers, userReport, Table.values, Function.comp_def]

/-- Worker slots are conserved in every history. A record shows the slots taken and not given back
under its registration, which are as many as its counter says and no more than allowed, and a user
gets another one exactly if these are fewer; who gets none changes nothing. A slot of a past
registration is given back without a change to any record, and one of the present registration is
one less in its owner's record only. No counter falls below zero, none is at zero while a slot under
its registration is in use, no name has more open slots than allowed, and the report shows the sum
of all records. -/
theorem worker_slots_conserved {policies : Policies} {sampler : Sampler} {timers : Bool}
    {start : Host} (hbuilt : IsBuilt policies sampler timers start) (actions : List Action) :
    let h := start.performAll actions
    (∀ name user, h.users.find? name = some user →
      user.workers = h.slotsUnder user.registration ∧
      user.workers ≤ policies.system.maxWorkers ∧
      ((∃ permit, (h.acquireWorker name).1 = .ok permit) ↔
        user.workers < policies.system.maxWorkers)) ∧
    (∀ name fault, (h.acquireWorker name).1 = .error fault →
      (h.acquireWorker name).2 =
        if h.isRegistered name then h
        else h.emit (.unknownResource "acquire_worker" name fault)) ∧
    (∀ permit ∈ h.permits,
      permit ∉ (h.releaseWorker permit).permits ∧
      (h.registration? permit.user ≠ some permit.registration →
        (h.releaseWorker permit).users = h.users) ∧
      ∀ user, h.users.find? permit.user = some user → user.registration = permit.registration →
        0 < user.workers ∧ (h.releaseWorker permit).users =
          h.users.insert permit.user { user with workers := user.workers - 1 }) ∧
    (∀ registration,
      start.slotCounter registration actions = h.slotsUnder registration ∧
      ∀ permit ∈ h.permits, permit.registration = registration →
        0 < start.slotCounter registration actions) ∧
    (∀ name, h.openSlots name ≤ policies.system.maxWorkers) ∧
    h.report.workers = total (h.users.values.map User.workers) := by
  have hquiet := hbuilt.quiet
  have hserved : start.served ≤ start.clock := hquiet.served le_rfl
  have hreach := hbuilt.isReachable actions
  have hs := hreach.slotsCounted
  have hpolicies := hbuilt.policies_eq actions
  have hcounter (registration : Nat) : start.slotCounter registration actions =
      (start.performAll actions).slotsUnder registration := by
    rw [slotsUnder_performAll hserved, slotsUnder, hquiet.permits]
    exact (Int.zero_add _).symm
  dsimp only
  rw [← hpolicies]
  refine ⟨?_, ?_, ?_, ?_, hs.openSlots_le, report_workers _⟩
  · intro name user hfound
    refine ⟨hs.workers_eq hfound, ?_, hs.acquireWorker_iff hfound⟩
    rw [hs.workers_eq hfound]
    exact hs.capped _
  · exact fun name fault hresult => acquireWorker_of_error hresult
  · intro permit hheld
    refine ⟨?_, ?_, ?_⟩
    · rw [permits_releaseWorker hheld]
      exact hreach.permitsApart.nodup.not_mem_erase
    · intro hpast
      rcases posts_releaseWorker hheld with ⟨user, hfound, hcurrent, -⟩ | ⟨-, husers⟩
      · exact absurd (by simp [registration?, hfound, hcurrent]) hpast
      · exact husers
    · exact fun user hfound hcurrent => hs.releaseWorker_present hheld hfound hcurrent
  · intro registration
    refine ⟨hcounter registration, fun permit hheld hsame => ?_⟩
    rw [hcounter, Int.natCast_pos]
    exact List.countP_pos_iff.2 ⟨permit, hheld, decide_eq_true hsame⟩

/-- A slot outlives the registration under which it was taken, and its user comes back. -/
theorem worker_slots_of_late_release :
    ∃ start, IsBuilt {} ⟨⟨100, 0, 2048, 0⟩, none⟩ true start ∧
      let h := start.performAll
        [.registerUser "ana", .acquireWorker "ana", .unregisterUser "ana", .registerUser "ana",
          .acquireWorker "ana"]
      h.permits = [⟨4, "ana", 3⟩, ⟨2, "ana", 1⟩] ∧
        (h.releaseWorker ⟨2, "ana", 1⟩).users = h.users ∧ h.slotsUnder 3 = 1 ∧
        h.openSlots "ana" ≤ 20 := by
  refine ⟨_, .of_build rfl, ?_⟩
  have hbuilt : IsBuilt {} ⟨⟨100, 0, 2048, 0⟩, none⟩ true _ := .of_build rfl
  obtain ⟨-, -, hreleased, -, hopen, -⟩ := worker_slots_conserved hbuilt
    [.registerUser "ana", .acquireWorker "ana", .unregisterUser "ana", .registerUser "ana",
      .acquireWorker "ana"]
  exact ⟨rfl, (hreleased ⟨2, "ana", 1⟩ (by decide)).2.1 (by decide), rfl, hopen "ana"⟩

end Host

end Steward
