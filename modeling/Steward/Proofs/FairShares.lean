import Steward.Proofs.Enrolment

/-!
# Fair shares

The allowance that is kept with a user is the fair share of the present population, on every path
that leads to that population. So allowances depend on nothing but who is registered, and a user
who joins and leaves again is not noticed by the others.
-/

namespace Steward

/-- Numbers that are all the same add up to a product. -/
theorem total_map_const {α : Type} {items : List α} {f : α → Nat} {c : Nat}
    (hsame : ∀ item ∈ items, f item = c) : total (items.map f) = items.length * c := by
  induction items with
  | nil => simp [total]
  | cons item rest ih =>
    have hfirst := hsame item List.mem_cons_self
    have hrest := ih fun other hother => hsame other (List.mem_cons_of_mem _ hother)
    rw [List.map_cons, total, hfirst, hrest, List.length_cons, Nat.succ_mul]
    omega

namespace Allowance

/-- A share of memory is at least the floor. -/
theorem minMemory_le_memoryShare (p : SystemPolicy) (hostMemory users : Nat) :
    p.minMemory ≤ memoryShare p hostMemory users :=
  le_max_right _ _

/-- All shares of memory together fit the pool, when all floors do. -/
theorem mul_memoryShare_le {p : SystemPolicy} {hostMemory users : Nat}
    (hfloors : users * p.minMemory ≤ p.memoryPool hostMemory) :
    users * memoryShare p hostMemory (max users 1) ≤ p.memoryPool hostMemory := by
  rcases Nat.eq_zero_or_pos users with hnone | hsome
  · rw [hnone, Nat.zero_mul]
    exact Nat.zero_le _
  · have heven : users * (p.memoryPool hostMemory / users) ≤ p.memoryPool hostMemory :=
      Nat.mul_div_le _ _
    have hone : max users 1 = users := by omega
    rw [hone, memoryShare]
    rcases Nat.le_total (p.memoryPool hostMemory / users) p.minMemory with hle | hle
    · rwa [max_eq_right hle]
    · rwa [max_eq_left hle]

end Allowance

/-- Whether a change leaves the flags of idle users alone. -/
def Effect.keepsFlags : Effect → Prop
  | .surveyed | .left _ => False
  | _ => True

namespace Host

/-- Everybody has the fair share of the present population, and nobody is flagged who left. -/
structure SharesFairly (h : Host) : Prop where
  share : ∀ name entry, h.enrolled.find? name = some entry → entry.2 = h.shareOf h.users.size
  room : h.users.size ≤ h.policies.system.maxUsers
  flagged : ∀ name ∈ h.inactive, h.users.contains name = true

section Changing

variable {effect : Effect} {h g : Host}

/-- Equal policies on equal machines make equal shares. -/
theorem shareOf_congr (hpolicies : g.policies = h.policies)
    (hmemory : g.totalMemory = h.totalMemory) (population : Nat) :
    g.shareOf population = h.shareOf population := by
  rw [shareOf, shareOf, hpolicies, hmemory]

/-- Idle users are registered. -/
theorem contains_of_mem_idleUsers {name : String} (hidle : name ∈ h.idleUsers) :
    h.users.contains name = true := by
  obtain ⟨⟨found, user⟩, hmem, rfl⟩ := List.mem_map.1 hidle
  exact Table.contains_iff.2 ⟨user, Table.mem_entries_iff.1 (List.mem_filter.1 hmem).1⟩

/-- Only surveys and departures change who is flagged. -/
theorem Change.inactive_eq (hchange : Change effect h g) (hkeeps : effect.keepsFlags) :
    g.inactive = h.inactive := by
  cases hchange with
  | surveyed => exact hkeeps.elim
  | left => exact hkeeps.elim
  | released => simp only [releaseWorker]; split_ifs <;> rfl
  | _ => simp [welcome, reshare]

namespace SharesFairly

/-- What keeps the enrolment keeps shares fair. -/
theorem frame (hfair : h.SharesFairly) (henrolled : g.enrolled = h.enrolled)
    (hpolicies : g.policies = h.policies) (hmemory : g.totalMemory = h.totalMemory)
    (hflagged : ∀ name ∈ g.inactive, h.users.contains name = true) : g.SharesFairly := by
  have hsize : g.users.size = h.users.size := by
    rw [← size_enrolled, henrolled, size_enrolled]
  constructor
  · intro name entry hfound
    rw [henrolled] at hfound
    rw [hsize, shareOf_congr hpolicies hmemory]
    exact hfair.share name entry hfound
  · rw [hsize, hpolicies]
    exact hfair.room
  · intro name hname
    rw [← contains_enrolled, henrolled, contains_enrolled]
    exact hflagged name hname

/-- Quiet changes keep shares fair. -/
theorem quiet (hfair : h.SharesFairly) (hquiet : Quiet h g) : g.SharesFairly := by
  refine hfair.frame hquiet.enrolled_eq hquiet.policies hquiet.totalMemory ?_
  rw [hquiet.inactive]
  exact hfair.flagged

/-- A new user gets a fair share at once, and so does everybody else. -/
theorem joined {name : String} (hfair : h.SharesFairly) (hnew : h.users.find? name = none)
    (hroom : h.users.size < h.policies.system.maxUsers) : (h.welcome name).SharesFairly := by
  have hsize : (h.welcome name).users.size = h.users.size + 1 := by
    rw [← size_enrolled, enrolled_welcome hnew, Table.size_map, ← h.size_enrolled]
    refine Table.size_insert_of_find?_eq_none _ ?_
    simp [enrolled, hnew]
  constructor
  · intro other entry hfound
    rw [enrolled_welcome hnew, Table.find?_map] at hfound
    obtain ⟨_, _, rfl⟩ := Option.map_eq_some_iff.1 hfound
    rw [hsize]
    rfl
  · rw [hsize]
    exact hroom
  · intro other hother
    have hknown := hfair.flagged other hother
    rw [← contains_enrolled, enrolled_welcome hnew, Table.contains_map, Table.contains_iff,
      Table.find?_insert]
    split_ifs
    · exact ⟨_, rfl⟩
    · rwa [← Table.contains_iff, contains_enrolled]

/-- After a departure the others share anew. -/
theorem left {name : String} {user : User} (hfair : h.SharesFairly)
    (hfound : h.users.find? name = some user) : (h.removeUser name user).SharesFairly := by
  have hsize : (h.removeUser name user).users.size = (h.users.erase name).size := by
    rw [users_removeUser, Table.size_map]
  have hleave := Table.size_erase_of_find? hfound
  constructor
  · intro other entry hother
    rw [enrolled_removeUser, Table.find?_map] at hother
    obtain ⟨_, _, rfl⟩ := Option.map_eq_some_iff.1 hother
    rw [hsize]
    simp [shareOf, removeUser, reshare]
  · have hroom := hfair.room
    have hpolicies : (h.removeUser name user).policies = h.policies := by
      simp [removeUser, reshare]
    rw [hsize, hpolicies]
    omega
  · intro other hother
    have hmem : other ∈ h.inactive ∧ other ≠ name := by
      simpa [removeUser, reshare] using hother
    have hknown := hfair.flagged other hmem.1
    rwa [users_removeUser, Table.contains_map, Table.contains, Table.find?_erase_of_ne _ hmem.2]

/-- Every small change keeps shares fair. -/
theorem change (hfair : h.SharesFairly) (hchange : Change effect h g) : g.SharesFairly := by
  by_cases hkeeps : effect.keepsUsers
  · refine hfair.frame (hchange.enrolled_eq hkeeps) hchange.sameBuild.policies
      hchange.sameBuild.totalMemory ?_
    by_cases hsurvey : effect = .surveyed
    · subst hsurvey
      cases hchange with
      | surveyed => exact fun name hidle => contains_of_mem_idleUsers hidle
    · have hflags : effect.keepsFlags := by
        cases effect with
        | surveyed => exact hsurvey rfl
        | left => exact hkeeps
        | _ => trivial
      rw [hchange.inactive_eq hflags]
      exact hfair.flagged
  · cases hchange with
    | joined hnew hroom => exact hfair.joined hnew hroom
    | left hfound => exact hfair.left hfound
    | _ => exact absurd trivial hkeeps

/-- Small changes keep shares fair. -/
theorem changes {may : Effect → Prop} (hfair : h.SharesFairly) (hchanges : Changes may h g) :
    g.SharesFairly :=
  hchanges.preserves (fun hquiet hp => hp.quiet hquiet) (fun _ hchange hp => hp.change hchange)
    hfair

end SharesFairly

end Changing

/-! ## A visit that nobody notices -/

/-- The same users with the same records, of whom the same are flagged and cancelled. -/
structure SameUsers (h g : Host) : Prop where
  users : g.users = h.users
  inactive : g.inactive = h.inactive
  scopes : ∀ name user, h.users.find? name = some user →
    g.isCancelled user.scope = h.isCancelled user.scope

section Visit

variable {h g : Host} {name : String}

/-- Quiet changes keep the users. -/
theorem SameUsers.quiet (hquiet : Quiet h g) : SameUsers h g where
  users := hquiet.users
  inactive := hquiet.inactive
  scopes _ _ _ := by simp [isCancelled, User.scope, hquiet.cancelled]

/-- Where nobody of a name is registered, unregistering the name changes nothing. -/
theorem quiet_unregisterUser (hnone : h.users.find? name = none) :
    Quiet h (h.unregisterUser name).2 := by
  have hmissing := user?_eq_error.2 ⟨hnone, rfl⟩
  simp only [unregisterUser, hmissing]
  exact quiet_reportUnknown _ _ (_, h)

/-- Ending a run keeps the users, whose scopes are not those of runs. -/
theorem SameUsers.stopIfRunning (h : Host) (name : String) (reason : StopReason) :
    SameUsers h (h.stopIfRunning name reason).2 := by
  unfold Host.stopIfRunning run?
  cases hfound : h.runs.find? name with
  | none => exact .quiet (.refl h)
  | some run =>
    constructor
    · simp [endRun, emit]
    · simp [endRun, emit]
    · intro other user _
      have hroot : Scope.root user.registration ∈
          ({ h with runs := h.runs.erase name }.cancel run.scope).cancelled ↔
            .root user.registration ∈ h.cancelled := by
        rw [mem_cancelled_cancel]
        simp [Run.scope]
      rw [Bool.eq_iff_iff]
      simpa [isCancelled, endRun, emit, User.scope] using hroot

/-- One thing that keeps the users after another. -/
theorem SameUsers.trans {k : Host} (hg : SameUsers h g) (hk : SameUsers g k) : SameUsers h k where
  users := hk.users.trans hg.users
  inactive := hk.inactive.trans hg.inactive
  scopes other user hfound := by
    rw [hk.scopes other user (by rwa [hg.users]), hg.scopes other user hfound]

/-- Who was there before a user joined is there with the share of the greater population. -/
theorem find?_welcome_of_ne (hnew : h.users.find? name = none) {other : String}
    (hother : other ≠ name) :
    (h.welcome name).users.find? other = (h.users.find? other).map fun user =>
      { user with allowance := h.shareOf (h.users.size + 1) } := by
  simp only [welcome, reshare, Table.find?_map, Table.size_insert_of_find?_eq_none _ hnew]
  rw [Table.find?_insert_of_ne _ _ hother]
  rfl

/-- Who joined lives under the next identity. -/
theorem registration_of_welcome {user : User}
    (hfound : (h.welcome name).users.find? name = some user) : user.registration = h.nextId := by
  simp only [welcome, reshare, Table.find?_map, Table.find?_insert_self] at hfound
  cases hfound
  rfl

/-- Who joined is one more. -/
theorem size_welcome (hnew : h.users.find? name = none) :
    (h.welcome name).users.size = h.users.size + 1 := by
  simp only [welcome, reshare, Table.size_map]
  exact Table.size_insert_of_find?_eq_none _ hnew

/-- Who leaves after a visit takes no other scope along. -/
theorem EnrolsIssued.scopes_visit {user : User} (hissued : h.EnrolsIssued)
    (hregistration : user.registration = h.nextId) {other : String} {old : User}
    (hold : h.users.find? other = some old) :
    (g.removeUser name user).isCancelled old.scope = g.isCancelled old.scope := by
  have hused := hissued other _ (find?_enrolled hold)
  have hdifferent : old.registration ≠ user.registration := by
    dsimp only at hused
    omega
  have hroot : Scope.root old.registration ∈ (g.cancel user.scope).cancelled ↔
      .root old.registration ∈ g.cancelled := by
    rw [mem_cancelled_cancel]
    simp [User.scope, hdifferent]
  rw [Bool.eq_iff_iff]
  simpa [isCancelled, User.scope, removeUser, reshare] using hroot

namespace SharesFairly

variable {user : User} (hfair : h.SharesFairly) (hnew : h.users.find? name = none)
include hfair hnew

/-- After a visit everybody has the old share again. -/
theorem users_visit (husers : g.users = (h.welcome name).users)
    (hpolicies : g.policies = h.policies) (hmemory : g.totalMemory = h.totalMemory)
    (hfound : g.users.find? name = some user) : (g.removeUser name user).users = h.users := by
  have hsize : (g.users.erase name).size = h.users.size := by
    have hleave := Table.size_erase_of_find? hfound
    have hjoin := size_welcome hnew
    rw [← husers] at hjoin
    omega
  rw [users_removeUser, hsize, shareOf_congr hpolicies hmemory]
  refine Table.ext_find? fun other => ?_
  rw [Table.find?_map, Table.find?_erase]
  split_ifs with hother
  · rw [hother, hnew]
    rfl
  · rw [husers, find?_welcome_of_ne hnew hother, Option.map_map]
    cases hold : h.users.find? other with
    | none => rfl
    | some old =>
      have hshare := hfair.share other _ (find?_enrolled hold)
      dsimp only at hshare
      simp [← hshare]

/-- After a visit the same users are flagged. -/
theorem inactive_visit (hinactive : g.inactive = h.inactive) :
    (g.removeUser name user).inactive = h.inactive := by
  have habsent : name ∉ h.inactive := by
    intro hmem
    have hknown := hfair.flagged name hmem
    rw [Table.contains, hnew] at hknown
    cases hknown
  have hrest : ∀ other ∈ h.inactive, decide (other ≠ name) = true := by
    intro other hmem
    refine decide_eq_true ?_
    rintro rfl
    exact habsent hmem
  simp only [removeUser, reshare, inactive_cancel, hinactive]
  exact List.filter_eq_self.2 hrest

/-- Taking out who just joined leaves the others as they were. -/
theorem sameUsers_removeUser (hissued : h.EnrolsIssued) (hsame : SameUsers (h.welcome name) g)
    (hpolicies : g.policies = h.policies) (hmemory : g.totalMemory = h.totalMemory)
    (hfound : g.users.find? name = some user) : SameUsers h (g.removeUser name user) where
  users := hfair.users_visit hnew hsame.users hpolicies hmemory hfound
  inactive := hfair.inactive_visit hnew hsame.inactive
  scopes other old hold := by
    have hother : other ≠ name := by
      rintro rfl
      rw [hnew] at hold
      cases hold
    have hregistration := registration_of_welcome (hsame.users ▸ hfound)
    have hwelcomed := find?_welcome_of_ne hnew hother
    rw [hold, Option.map_some] at hwelcomed
    -- The records differ in their allowances, but not in their scopes.
    have hscope := hsame.scopes other _ hwelcomed
    simp only [isCancelled_welcome, User.scope] at hscope
    rw [hissued.scopes_visit hregistration hold, User.scope, hscope]

end SharesFairly

/-- Registering a new user and unregistering the user again is noticed by nobody else, whether there
was room or not. -/
theorem SharesFairly.sameUsers_visit {may : Effect → Prop} (hfair : h.SharesFairly)
    (hissued : h.EnrolsIssued) (hnew : h.users.find? name = none)
    (hsame : SameUsers (h.registerUser name).2 g) (hchanges : Changes may h g) :
    SameUsers h (g.unregisterUser name).2 := by
  have hunknown : h.users.contains name = false := Table.contains_eq_false.2 hnew
  by_cases hfull : h.policies.system.maxUsers ≤ h.users.size
  · have hstayed : (h.registerUser name).2 = h := by
      simp [registerUser, hunknown, hfull]
    rw [hstayed] at hsame
    exact hsame.trans (.quiet (quiet_unregisterUser (by rw [hsame.users, hnew])))
  · have hjoined : SameUsers (h.welcome name) (h.registerUser name).2 := by
      simp only [registerUser, hunknown, hfull, Bool.false_eq_true, if_false]
      exact .quiet (quiet_emit _ _)
    have hvisiting := hjoined.trans hsame
    have hknown : g.users.contains name = true := by
      rw [hvisiting.users, welcome, reshare, Table.contains_map]
      exact Table.contains_iff.2 ⟨_, Table.find?_insert_self ..⟩
    obtain ⟨user, hfound⟩ := Table.contains_iff.1 hknown
    rw [unregisterUser_of_find? hfound]
    have hleft := hfair.sameUsers_removeUser hnew hissued hvisiting hchanges.policies_eq
      hchanges.sameBuild.totalMemory hfound
    exact hleft.trans (.quiet (quiet_emit _ _))

end Visit

/-! ## Every history -/

/-- In the empty host shares are fair. -/
theorem sharesFairly_empty (policies : Policies) (sampler : Sampler) (timers : Bool)
    (clockEnd : Span) : (empty policies sampler timers clockEnd).SharesFairly where
  share name entry hfound := by simp [find?_enrolled_empty] at hfound
  room := Nat.zero_le _
  flagged name hname := by simp [empty] at hname

/-- Where shares are fair, all users have the same allowance. -/
theorem SharesFairly.allowance_eq {h : Host} (hfair : h.SharesFairly) {name : String} {user : User}
    (hfound : h.users.find? name = some user) : user.allowance = h.shareOf h.users.size :=
  hfair.share name _ (find?_enrolled hfound)

/-- Where shares are fair, the memory of all users together is a multiple of one share. -/
theorem SharesFairly.total_maxMemory {h : Host} (hfair : h.SharesFairly) :
    total (h.users.values.map fun user => user.allowance.maxMemory) =
      h.users.size * (h.shareOf h.users.size).maxMemory := by
  have hsame : ∀ user ∈ h.users.values,
      user.allowance.maxMemory = (h.shareOf h.users.size).maxMemory := by
    intro user hmem
    obtain ⟨⟨name, found⟩, hentry, rfl⟩ := List.mem_map.1 hmem
    rw [hfair.allowance_eq (Table.mem_entries_iff.1 hentry)]
  rw [total_map_const hsame, Table.values, List.length_map, Table.size]

/-- Where shares are fair, allowances depend on nothing but who is registered. -/
theorem SharesFairly.allowances_eq {h g : Host} (hfair : h.SharesFairly) (hother : g.SharesFairly)
    (hpolicies : g.policies = h.policies) (hmemory : g.totalMemory = h.totalMemory)
    (hsame : ∀ name, g.isRegistered name = h.isRegistered name) (name : String) :
    (g.users.find? name).map User.allowance = (h.users.find? name).map User.allowance := by
  have hsize : g.users.size = h.users.size := Table.size_eq_of_contains hsame
  have hname := hsame name
  cases hfound : g.users.find? name with
  | none =>
    have hnone : h.users.find? name = none := by
      rw [← Table.contains_eq_false, ← isRegistered, ← hname, isRegistered,
        Table.contains_eq_false, hfound]
    rw [hnone]
  | some user =>
    obtain ⟨twin, htwin⟩ : ∃ twin, h.users.find? name = some twin := by
      rw [← Table.contains_iff, ← isRegistered, ← hname, isRegistered, Table.contains_iff]
      exact ⟨user, hfound⟩
    rw [htwin, Option.map_some, Option.map_some, hother.allowance_eq hfound,
      hfair.allowance_eq htwin, hsize, shareOf_congr hpolicies hmemory]

/-- In every reachable host shares are fair. -/
theorem IsReachable.sharesFairly {h : Host} (hreach : h.IsReachable) : h.SharesFairly := by
  obtain ⟨policies, sampler, timers, clockEnd, hchanges⟩ := hreach.changes
  exact (sharesFairly_empty policies sampler timers _).changes hchanges

/-- Allowances are always those of the present population: the same for all users, whatever path led
there, and untouched by visits. All memory together fits the pool when all floors do. -/
theorem shares_always_current {policies : Policies} {sampler : Sampler} {timers : Bool}
    {start : Host} (hbuilt : IsBuilt policies sampler timers start) (actions : List Action) :
    let h := start.performAll actions
    let memory := sampler.sample.totalMemory
    (∀ name user, h.users.find? name = some user →
      user.allowance = .fairShare policies.system memory h.population ∧
        policies.system.minMemory ≤ user.allowance.maxMemory) ∧
      h.population ≤ policies.system.maxUsers ∧
      (∀ others,
        (∀ name, (start.performAll others).isRegistered name = h.isRegistered name) →
          ∀ name, ((start.performAll others).users.find? name).map User.allowance =
            (h.users.find? name).map User.allowance) ∧
      (∀ name, h.isRegistered name = false →
        SameUsers h ((h.registerUser name).2.unregisterUser name).2 ∧
          SameUsers h ((h.registerUser name).2.retireUser name).2) ∧
      (h.population * policies.system.minMemory ≤ policies.system.memoryPool memory →
        total (h.users.values.map fun user => user.allowance.maxMemory) ≤
          policies.system.memoryPool memory) := by
  have hquiet := hbuilt.quiet
  have hserved : start.served ≤ start.clock := hquiet.served le_rfl
  have hchanges (steps : List Action) := start.performAll_changes steps hserved
  have hreached (steps : List Action) : (start.performAll steps).SharesFairly :=
    ((sharesFairly_empty policies sampler timers _).quiet hquiet).changes (hchanges steps)
  have hissued : (start.performAll actions).EnrolsIssued :=
    ((enrolsIssued_empty policies sampler timers _).quiet hquiet).changes (hchanges actions)
  have hpolicies (steps : List Action) : (start.performAll steps).policies = policies :=
    (hchanges steps).policies_eq.trans hquiet.policies
  have hmemory (steps : List Action) :
      (start.performAll steps).totalMemory = sampler.sample.totalMemory :=
    (hchanges steps).sameBuild.totalMemory.trans hquiet.totalMemory
  have hshare (population : Nat) : (start.performAll actions).shareOf population =
      .fairShare policies.system sampler.sample.totalMemory population := by
    rw [shareOf, hpolicies, hmemory]
  have hfair := hreached actions
  dsimp only
  refine ⟨?_, ?_, ?_, ?_, ?_⟩
  · intro name user hfound
    have hallowance : user.allowance = .fairShare policies.system sampler.sample.totalMemory
        (start.performAll actions).population := by
      rw [hfair.allowance_eq hfound, hshare, population]
    refine ⟨hallowance, ?_⟩
    rw [hallowance]
    exact Allowance.minMemory_le_memoryShare _ _ _
  · rw [← hpolicies actions]
    exact hfair.room
  · intro others hsame
    exact hfair.allowances_eq (hreached others) ((hpolicies others).trans (hpolicies actions).symm)
      ((hmemory others).trans (hmemory actions).symm) hsame
  · intro name hunknown
    have hnew := Table.contains_eq_false.1 hunknown
    have hregister : Changes (fun _ => True) (start.performAll actions)
        ((start.performAll actions).registerUser name).2 := changes_registerUser trivial
    refine ⟨hfair.sameUsers_visit hissued hnew (.quiet (.refl _)) hregister, ?_⟩
    exact hfair.sameUsers_visit hissued hnew (.stopIfRunning _ _ _)
      (hregister.trans (changes_stopIfRunning trivial _))
  · intro hfloors
    have hfits := Allowance.mul_memoryShare_le hfloors
    rw [hfair.total_maxMemory, hshare]
    exact hfits

/-- Two users share a pool, and a third one visits. -/
theorem shares_current_of_two_users :
    ∃ start, IsBuilt {} ⟨⟨100, 0, 2048, 0⟩, none⟩ true start ∧
      let h := start.performAll [.registerUser "ana", .registerUser "bob"]
      total (h.users.values.map fun user => user.allowance.maxMemory) ≤ 1792 ∧
        SameUsers h ((h.registerUser "cy").2.unregisterUser "cy").2 := by
  refine ⟨_, .of_build rfl, ?_⟩
  have hbuilt : IsBuilt {} ⟨⟨100, 0, 2048, 0⟩, none⟩ true _ := .of_build rfl
  obtain ⟨-, -, -, hvisit, hfits⟩ := shares_always_current hbuilt
    [.registerUser "ana", .registerUser "bob"]
  exact ⟨hfits (by decide), (hvisit "cy" rfl).1⟩

end Host

end Steward
