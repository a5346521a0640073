import Steward.Proofs.Histories

/-!
# Enrolment

A registration fixes a scope and an allowance. Only when a user joins or leaves do these change; all
other work on the records of users leaves them as they are.
-/

namespace Steward

/-- Whether a change leaves the registrations and their allowances alone. -/
def Effect.keepsUsers : Effect → Prop
  | .joined _ | .left _ => False
  | _ => True

namespace Host

/-- The registration and the allowance of each user. -/
def enrolled (h : Host) : Table (Nat × Allowance) :=
  h.users.map fun user => (user.registration, user.allowance)

variable {effect : Effect} {h g : Host}

/-- What a record says about its user is what is enrolled. -/
theorem find?_enrolled {name : String} {user : User} (hfound : h.users.find? name = some user) :
    h.enrolled.find? name = some (user.registration, user.allowance) := by
  simp [enrolled, hfound]

/-- As many are enrolled as there are users. -/
@[simp] theorem size_enrolled (h : Host) : h.enrolled.size = h.users.size := Table.size_map _ _

/-- The same names are enrolled and registered. -/
@[simp] theorem contains_enrolled (h : Host) (name : String) :
    h.enrolled.contains name = h.users.contains name :=
  Table.contains_map _ _ _

/-- Replacing a record by one of the same registration and allowance keeps the enrolment. -/
theorem enrolled_insert {name : String} {old new : User} (hfound : h.users.find? name = some old)
    (hregistration : new.registration = old.registration)
    (hallowance : new.allowance = old.allowance) :
    (h.users.insert name new).map (fun user => (user.registration, user.allowance)) =
      h.enrolled := by
  rw [Table.map_insert]
  exact Table.insert_of_find? (by simp [hfound, hregistration, hallowance])

/-- Giving a worker slot back keeps the enrolment. -/
theorem enrolled_releaseWorker (h : Host) (permit : Permit) :
    (h.releaseWorker permit).enrolled = h.enrolled := by
  simp only [releaseWorker]
  split_ifs
  · simp only [enrolled]
    split
    · next user hfound =>
      split_ifs
      · exact enrolled_insert hfound rfl rfl
      · rfl
    · rfl
  · rfl

/-- Only joining and leaving change the enrolment. -/
theorem Change.enrolled_eq (hchange : Change effect h g) (hkeeps : effect.keepsUsers) :
    g.enrolled = h.enrolled := by
  cases hchange with
  | joined => exact hkeeps.elim
  | left => exact hkeeps.elim
  | touched hfound => exact enrolled_insert hfound rfl rfl
  | estimated hfound => exact enrolled_insert hfound rfl rfl
  | hired hfound => exact enrolled_insert hfound rfl rfl
  | released => exact enrolled_releaseWorker _ _
  | surveyed =>
    simp only [enrolled, spreadUsage, Table.map_map]
    rfl
  | _ => simp [enrolled]

/-- Quiet changes keep the enrolment. -/
theorem Quiet.enrolled_eq (hquiet : Quiet h g) : g.enrolled = h.enrolled := by
  rw [enrolled, hquiet.users, enrolled]

/-- After a new user joined, everybody has the share of the greater population. -/
theorem enrolled_welcome {name : String} (hnew : h.users.find? name = none) :
    (h.welcome name).enrolled = (h.enrolled.insert name (h.nextId, h.shareOf 1)).map
      fun entry => (entry.1, h.shareOf (h.users.size + 1)) := by
  simp only [enrolled, welcome, reshare, Table.size_insert_of_find?_eq_none _ hnew]
  rw [Table.map_map, ← Table.map_insert _ _ _ (User.mk ..), Table.map_map]
  rfl

/-- Who joins cancels nothing. -/
theorem isCancelled_welcome (h : Host) (name : String) (scope : Scope) :
    (h.welcome name).isCancelled scope = h.isCancelled scope := by
  cases scope <;> rfl

/-- After a user left, everybody has the share of the smaller population. -/
theorem enrolled_removeUser (h : Host) (name : String) (user : User) :
    (h.removeUser name user).enrolled = (h.enrolled.erase name).map
      fun entry => (entry.1, h.shareOf (h.users.erase name).size) := by
  rw [enrolled, users_removeUser, enrolled, ← Table.map_erase, Table.map_map, Table.map_map]
  rfl

/-- Every registration has an identity that was used. -/
def EnrolsIssued (h : Host) : Prop :=
  ∀ name entry, h.enrolled.find? name = some entry → entry.1 < h.nextId

namespace EnrolsIssued

/-- Quiet changes use no identity for a registration. -/
theorem quiet (hissued : h.EnrolsIssued) (hquiet : Quiet h g) : g.EnrolsIssued := by
  intro name entry hfound
  rw [hquiet.enrolled_eq] at hfound
  exact (hissued name entry hfound).trans_le hquiet.nextId

/-- Every small change registers under a new identity, if it registers. -/
theorem change (hissued : h.EnrolsIssued) (hchange : Change effect h g) : g.EnrolsIssued := by
  intro name entry hfound
  by_cases hkeeps : effect.keepsUsers
  · rw [hchange.enrolled_eq hkeeps] at hfound
    exact (hissued name entry hfound).trans_le hchange.nextId_le
  · cases hchange with
    | joined hnew =>
      rw [enrolled_welcome hnew, Table.find?_map] at hfound
      obtain ⟨old, hold, rfl⟩ := Option.map_eq_some_iff.1 hfound
      rw [Table.find?_insert] at hold
      split_ifs at hold
      · cases hold
        exact Nat.lt_succ_self _
      · exact Nat.lt_succ_of_lt (hissued name old hold)
    | left huser =>
      rw [enrolled_removeUser, Table.find?_map] at hfound
      obtain ⟨old, hold, rfl⟩ := Option.map_eq_some_iff.1 hfound
      rw [Table.find?_erase] at hold
      split_ifs at hold
      have hused := hissued name old hold
      simpa [removeUser, reshare] using hused
    | _ => exact absurd trivial hkeeps

/-- Small changes register under new identities. -/
theorem changes {may : Effect → Prop} (hissued : h.EnrolsIssued) (hchanges : Changes may h g) :
    g.EnrolsIssued :=
  hchanges.preserves (fun hquiet hp => hp.quiet hquiet) (fun _ hchange hp => hp.change hchange)
    hissued

end EnrolsIssued

/-- In the empty host nobody is enrolled. -/
theorem find?_enrolled_empty (policies : Policies) (sampler : Sampler) (timers : Bool)
    (clockEnd : Span) (name : String) :
    (empty policies sampler timers clockEnd).enrolled.find? name = none := rfl

/-- In the empty host no identity was used. -/
theorem enrolsIssued_empty (policies : Policies) (sampler : Sampler) (timers : Bool)
    (clockEnd : Span) : (empty policies sampler timers clockEnd).EnrolsIssued := by
  intro name entry hfound
  simp [find?_enrolled_empty] at hfound

end Host

end Steward
