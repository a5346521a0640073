import Steward.Proofs.FairShares
import Steward.Proofs.SessionOwners

/-!
# Idle sweeps

Sessions that are removed one after the other take their owners' runs with them, and the owners
themselves once no session is left. What remains depends on which sessions were removed and not on
the order: it is told by look-ups in the host before and in the sessions after. A sweep removes
exactly the idle sessions, so a second one at the same time finds nothing to do.
-/

namespace Steward.Host

/-- Whether a session is idle for longer than the policy allows. -/
def IsIdle (h : Host) (session : Session) : Prop :=
  h.policies.session.idleTimeout < h.now.since (.ofMillis session.lastActivity)

/-- Whether a name owns one of some sessions. -/
def OwnsOneOf (h : Host) (ids : List String) (name : String) : Prop :=
  ∃ id ∈ ids, ∃ session, h.sessions.find? id = some session ∧ session.username = name

/-- Some sessions of a host were removed: with them the runs of their owners, and those users who
own no session any more. The others share the pools anew. -/
structure Cleared (ids : List String) (h g : Host) : Prop where
  sessions : ∀ id, g.sessions.find? id = if id ∈ ids then none else h.sessions.find? id
  stopped : ∀ name, h.OwnsOneOf ids name → g.runs.find? name = none
  running : ∀ name, ¬h.OwnsOneOf ids name → g.runs.find? name = h.runs.find? name
  left : ∀ name, ¬g.Owns name → g.users.find? name = none
  stayed : ∀ name, g.Owns name → g.users.find? name =
    (h.users.find? name).map fun user => { user with allowance := h.shareOf g.population }
  inactive : g.inactive = h.inactive.filter g.isRegistered
  cancelled : ∀ scope, scope ∈ g.cancelled ↔ scope ∈ h.cancelled ∨
    (∃ name run, h.runs.find? name = some run ∧ h.OwnsOneOf ids name ∧ scope = run.scope) ∨
    ∃ name user, h.users.find? name = some user ∧ ¬g.Owns name ∧ scope = user.scope
  rest : g = { h with
    sessions := g.sessions, runs := g.runs, users := g.users, inactive := g.inactive,
    cancelled := g.cancelled, journal := g.journal }

/-- Two hosts that differ in nothing but their journals and the order in which scopes were
cancelled. -/
def SameTiers (h g : Host) : Prop :=
  (∀ scope, scope ∈ g.cancelled ↔ scope ∈ h.cancelled) ∧
    ∃ cancelled journal, g = { h with cancelled, journal }

variable {h g k : Host} {id : String} {ids : List String}

/-! ## One session less -/

/-- Cancelling changes nothing but what is cancelled. -/
theorem cancel_spec (h : Host) (scope : Scope) :
    ∃ cancelled, h.cancel scope = { h with cancelled } ∧
      ∀ other, other ∈ cancelled ↔ other = scope ∨ other ∈ h.cancelled := by
  refine ⟨(h.cancel scope).cancelled, ?_, fun _ => mem_cancelled_cancel⟩
  unfold cancel
  split_ifs <;> rfl

/-- The end of a user's run takes it out and cancels its scope. -/
theorem stopIfRunning_spec (h : Host) (user : String) (reason : StopReason) :
    ∃ cancelled journal,
      (h.stopIfRunning user reason).2 =
        { h with runs := h.runs.erase user, cancelled, journal } ∧
      ∀ scope, scope ∈ cancelled ↔
        scope ∈ h.cancelled ∨ ∃ run, h.runs.find? user = some run ∧ scope = run.scope := by
  unfold stopIfRunning run?
  cases hfound : h.runs.find? user with
  | none =>
    refine ⟨h.cancelled, h.journal, ?_, by simp⟩
    rw [Table.erase_of_find?_eq_none hfound]
  | some run =>
    obtain ⟨cancelled, hcancel, hmem⟩ :=
      { h with runs := h.runs.erase user }.cancel_spec run.scope
    refine ⟨cancelled, (h.endRun user run reason).journal, ?_, fun scope => ?_⟩
    · simp only [endRun, emit, hcancel]
    · rw [hmem, or_comm]
      simp

/-- Dropping a session takes it out together with the run of a user. -/
theorem dropSession_spec (h : Host) (id user : String) :
    ∃ cancelled journal,
      h.dropSession id user =
        { h with
          sessions := h.sessions.erase id, runs := h.runs.erase user, cancelled, journal } ∧
      ∀ scope, scope ∈ cancelled ↔
        scope ∈ h.cancelled ∨ ∃ run, h.runs.find? user = some run ∧ scope = run.scope :=
  { h with sessions := h.sessions.erase id }.stopIfRunning_spec user .requested

/-- A user who leaves takes along a record, a flag and a scope. -/
theorem removeUser_spec (h : Host) (name : String) (user : User) :
    ∃ cancelled,
      h.removeUser name user =
        { h with
          users := (h.removeUser name user).users
          inactive := h.inactive.filter (· ≠ name), cancelled } ∧
      ∀ scope, scope ∈ cancelled ↔ scope = user.scope ∨ scope ∈ h.cancelled := by
  obtain ⟨cancelled, hcancel, hmem⟩ := h.cancel_spec user.scope
  refine ⟨cancelled, ?_, hmem⟩
  simp only [removeUser, hcancel, reshare]

/-- A user without a run is only unregistered. -/
theorem retireUser_of_idle {name : String} {user : User} (hidle : h.runs.find? name = none)
    (hfound : h.users.find? name = some user) :
    ∃ event, (h.retireUser name).2 = (h.removeUser name user).emit event := by
  have hstop : h.stopIfRunning name .userUnregistered = (false, h) := by
    simp [stopIfRunning, run?, hidle]
  rw [retireUser, hstop, unregisterUser_of_find? hfound]
  exact ⟨_, rfl⟩

/-- Nobody owns a session who owns none among those that are counted. -/
theorem sessionCount_eq_zero {user : String} :
    h.sessionCount (fun session => session.username = user) = 0 ↔ ¬h.Owns user := by
  rw [sessionCount, Table.countP_values_eq_zero, Owns]
  simp

/-- Who owns a session depends on the sessions alone. -/
theorem owns_congr (hsessions : g.sessions = h.sessions) (name : String) :
    g.Owns name ↔ h.Owns name := by
  rw [Owns, hsessions, Owns]

section Removal

variable {session : Session} (hfound : h.sessions.find? id = some session)

include hfound

/-- Removing a session takes it out together with the run of its owner, who stays as long as another
session does. -/
theorem removeSession_of_another
    (hanother : (h.dropSession id session.username).Owns session.username) :
    ∃ cancelled journal,
      (h.removeSession id).2 =
        { h with
          sessions := h.sessions.erase id, runs := h.runs.erase session.username, cancelled,
          journal } ∧
      ∀ scope, scope ∈ cancelled ↔ scope ∈ h.cancelled ∨
        ∃ run, h.runs.find? session.username = some run ∧ scope = run.scope := by
  obtain ⟨event, hremove⟩ := removeSession_eq hfound
  obtain ⟨cancelled, journal, hdrop, hmem⟩ := h.dropSession_spec id session.username
  have hcount : ¬(h.dropSession id session.username).sessionCount
      (fun other => other.username = session.username) = 0 :=
    fun hzero => sessionCount_eq_zero.1 hzero hanother
  refine ⟨cancelled, event :: journal, ?_, hmem⟩
  rw [hremove]
  dsimp only
  rw [if_neg hcount, hdrop]
  rfl

/-- Removing the last session of its owner takes out the owner as well. -/
theorem removeSession_of_last {owner : User} (howner : h.users.find? session.username = some owner)
    (hlast : ¬(h.dropSession id session.username).Owns session.username) :
    ∃ cancelled journal,
      (h.removeSession id).2 =
        { h with
          sessions := h.sessions.erase id, runs := h.runs.erase session.username
          users := (h.removeUser session.username owner).users
          inactive := h.inactive.filter (· ≠ session.username), cancelled, journal } ∧
      ∀ scope, scope ∈ cancelled ↔ scope ∈ h.cancelled ∨
        (∃ run, h.runs.find? session.username = some run ∧ scope = run.scope) ∨
        scope = owner.scope := by
  obtain ⟨event, hremove⟩ := removeSession_eq hfound
  obtain ⟨dropped, noted, hdrop, hmem⟩ := h.dropSession_spec id session.username
  have hidle : (h.dropSession id session.username).runs.find? session.username = none := by
    rw [hdrop]
    exact Table.find?_erase_self ..
  obtain ⟨news, hretire⟩ := retireUser_of_idle hidle (by rw [hdrop]; exact howner)
  obtain ⟨cancelled, hleave, hleft⟩ :=
    (h.dropSession id session.username).removeUser_spec session.username owner
  refine ⟨cancelled, event :: news :: noted, ?_, fun scope => ?_⟩
  · rw [hremove]
    dsimp only
    rw [if_pos (sessionCount_eq_zero.2 hlast), hretire, hleave, users_removeUser, users_removeUser,
      hdrop]
    rfl
  · rw [hleft, hdrop, hmem, or_comm, or_assoc]

end Removal

/-! ## Some sessions less -/

/-- Where shares are fair, sharing anew among the same users changes nothing. -/
theorem SharesFairly.find?_users (hfair : h.SharesFairly) (name : String) :
    h.users.find? name =
      (h.users.find? name).map fun user => { user with allowance := h.shareOf h.population } := by
  cases hfound : h.users.find? name with
  | none => rfl
  | some user => rw [Option.map_some, population, ← hfair.allowance_eq hfound]

/-- Where the tiers agree, who owns no session is not registered. -/
theorem Agrees.find?_users (ha : h.Agrees) {name : String} (hnone : ¬h.Owns name) :
    h.users.find? name = none := by
  rw [ha.owns_iff, Bool.not_eq_true] at hnone
  exact Table.contains_eq_false.1 hnone

/-- Where the tiers agree, who is registered owns a session. -/
theorem Agrees.owns_of_find? (ha : h.Agrees) {name : String} {user : User}
    (hfound : h.users.find? name = some user) : h.Owns name :=
  (ha.owns_iff name).2 (Table.contains_iff.2 ⟨user, hfound⟩)

/-- A new allowance leaves a user the scope. -/
theorem scope_allowance (user : User) (allowance : Allowance) :
    ({ user with allowance } : User).scope = user.scope := rfl

namespace Cleared

/-- Nothing is cleared where no session is removed. -/
theorem nil (ha : h.Agrees) (hfair : h.SharesFairly) : Cleared [] h h where
  sessions _ := by simp
  stopped name hone := by simp [OwnsOneOf] at hone
  running _ _ := rfl
  left _ hnone := ha.find?_users hnone
  stayed name _ := hfair.find?_users name
  inactive := (List.filter_eq_self.2 hfair.flagged).symm
  cancelled scope := by
    refine ⟨.inl, ?_⟩
    rintro (hbefore | ⟨name, run, -, hone, -⟩ | ⟨name, user, hfound, hnone, -⟩)
    · exact hbefore
    · simp [OwnsOneOf] at hone
    · exact absurd (ha.owns_of_find? hfound) hnone
  rest := rfl

/-- One session has one owner. -/
theorem ownsOneOf_singleton {session : Session} (hfound : h.sessions.find? id = some session)
    (name : String) : h.OwnsOneOf [id] name ↔ name = session.username := by
  simp [OwnsOneOf, hfound, eq_comm]

section Single

variable {session : Session} (ha : h.Agrees) (hfair : h.SharesFairly)
  (hfound : h.sessions.find? id = some session)

include hfound

/-- Of the runs, that of the owner is taken out with a session. -/
theorem runs_single (name : String) :
    (h.OwnsOneOf [id] name → (h.runs.erase session.username).find? name = none) ∧
      (¬h.OwnsOneOf [id] name →
        (h.runs.erase session.username).find? name = h.runs.find? name) := by
  rw [ownsOneOf_singleton hfound]
  refine ⟨fun heq => ?_, fun hne => Table.find?_erase_of_ne _ hne⟩
  rw [heq, Table.find?_erase_self]

/-- The scope that ends with a session is that of its owner's run. -/
theorem scope_single (scope : Scope) :
    (∃ name run, h.runs.find? name = some run ∧ h.OwnsOneOf [id] name ∧ scope = run.scope) ↔
      ∃ run, h.runs.find? session.username = some run ∧ scope = run.scope := by
  simp [ownsOneOf_singleton hfound]

include ha hfair

/-- Removing a session of an owner who keeps another one clears it. -/
theorem single_of_another
    (hanother : (h.dropSession id session.username).Owns session.username) :
    Cleared [id] h (h.removeSession id).2 := by
  have hafter := (ha.removeSession_of_find? hfound).2
  have hruns := runs_single hfound
  obtain ⟨cancelled, journal, hg, hmem⟩ := removeSession_of_another hfound hanother
  rw [hg] at hafter ⊢
  exact
    { sessions := fun other => by simp [Table.find?_erase]
      stopped := fun name => (hruns name).1
      running := fun name => (hruns name).2
      left := fun _ => hafter.find?_users
      stayed := fun name _ => hfair.find?_users name
      inactive := (List.filter_eq_self.2 hfair.flagged).symm
      cancelled := fun scope => by
        rw [scope_single hfound, hmem]
        refine ⟨fun hended => hended.imp_right .inl, ?_⟩
        rintro (hbefore | hended | ⟨name, user, huser, hnone, -⟩)
        · exact .inl hbefore
        · exact .inr hended
        · exact absurd (hafter.owns_of_find? huser) hnone
      rest := rfl }

/-- Removing the last session of its owner clears it, and the owner leaves. -/
theorem single_of_last (hlast : ¬(h.dropSession id session.username).Owns session.username) :
    Cleared [id] h (h.removeSession id).2 := by
  have hafter := (ha.removeSession_of_find? hfound).2
  have hruns := runs_single hfound
  obtain ⟨owner, howner⟩ : ∃ owner, h.users.find? session.username = some owner :=
    Table.contains_iff.1 ((ha.owns_iff _).1 ⟨id, session, hfound, rfl⟩)
  obtain ⟨cancelled, journal, hg, hmem⟩ := removeSession_of_last hfound howner hlast
  obtain ⟨_, _, hdrop, -⟩ := h.dropSession_spec id session.username
  rw [users_removeUser] at hg
  have hgone : ¬(h.removeSession id).2.Owns session.username := fun howns =>
    hlast ((owns_congr (by rw [hg, hdrop]) _).1 howns)
  rw [hg] at hafter hgone ⊢
  have hkept {name : String} (hname : name ≠ session.username) {user : User}
      (huser : h.users.find? name = some user) :
      (h.users.erase session.username).find? name = some user := by
    rw [Table.find?_erase_of_ne _ hname, huser]
  exact
    { sessions := fun other => by simp [Table.find?_erase]
      stopped := fun name => (hruns name).1
      running := fun name => (hruns name).2
      left := fun _ => hafter.find?_users
      stayed := fun name howns => by
        have hname : name ≠ session.username := by
          rintro rfl
          exact hgone howns
        simp only [Table.find?_map, Table.find?_erase_of_ne _ hname, population, Table.size_map]
      inactive := by
        refine List.filter_congr fun name hflagged => ?_
        obtain ⟨user, huser⟩ := Table.contains_iff.1 (hfair.flagged name hflagged)
        by_cases hname : name = session.username
        · simp [hname, isRegistered, Table.contains]
        · simp [hname, isRegistered, Table.contains, hkept hname huser]
      cancelled := fun scope => by
        rw [scope_single hfound, hmem]
        refine or_congr_right (or_congr_right ⟨?_, ?_⟩)
        · exact fun hscope => ⟨session.username, owner, howner, hgone, hscope⟩
        · rintro ⟨name, user, huser, hnone, hscope⟩
          by_cases hname : name = session.username
          · rw [hname, howner] at huser
            cases huser
            exact hscope
          · refine absurd ((hafter.owns_iff name).2 ?_) hnone
            simp [isRegistered, Table.contains, hkept hname huser]
      rest := rfl }

end Single

/-- Removing a known session clears it. -/
theorem single {session : Session} (ha : h.Agrees) (hfair : h.SharesFairly)
    (hfound : h.sessions.find? id = some session) : Cleared [id] h (h.removeSession id).2 := by
  by_cases hanother : (h.dropSession id session.username).Owns session.username
  · exact single_of_another ha hfair hfound hanother
  · exact single_of_last ha hfair hfound hanother

/-- Who is registered in the end owns a session and was registered before, but for the allowance
with the same record. -/
theorem user_before (hcleared : Cleared ids h g) {name : String} {user : User}
    (hfound : g.users.find? name = some user) :
    g.Owns name ∧ ∃ before, h.users.find? name = some before ∧
      user = { before with allowance := h.shareOf g.population } := by
  by_cases howns : g.Owns name
  · rw [hcleared.stayed name howns] at hfound
    obtain ⟨before, hbefore, rfl⟩ := Option.map_eq_some_iff.1 hfound
    exact ⟨howns, before, hbefore, rfl⟩
  · rw [hcleared.left name howns] at hfound
    cases hfound

section Cons

variable (hfirst : Cleared [id] h k) (hrest : Cleared ids k g)

/-- Who owns a session that is left in the end owned it in between. -/
theorem owns_of_rest (hrest : Cleared ids k g) {name : String} (howns : g.Owns name) :
    k.Owns name := by
  obtain ⟨other, session, hfound, husername⟩ := howns
  rw [hrest.sessions] at hfound
  split_ifs at hfound
  exact ⟨other, session, hfound, husername⟩

include hfirst

/-- The owners of some sessions own the first one or one of the others. -/
theorem ownsOneOf_cons (hnew : id ∉ ids) (name : String) :
    h.OwnsOneOf (id :: ids) name ↔ h.OwnsOneOf [id] name ∨ k.OwnsOneOf ids name := by
  have hsame : ∀ other ∈ ids, k.sessions.find? other = h.sessions.find? other := by
    intro other hmem
    have hother : other ≠ id := fun heq => hnew (heq ▸ hmem)
    simp [hfirst.sessions, hother]
  constructor
  · rintro ⟨other, hmem, session, hfound, husername⟩
    rcases List.mem_cons.1 hmem with rfl | hmem
    · exact .inl ⟨other, List.mem_singleton_self _, session, hfound, husername⟩
    · exact .inr ⟨other, hmem, session, by rw [hsame other hmem, hfound], husername⟩
  · rintro (⟨other, hmem, session, hfound, husername⟩ | ⟨other, hmem, session, hfound, husername⟩)
    · rw [List.mem_singleton.1 hmem] at hfound
      exact ⟨id, List.mem_cons_self, session, hfound, husername⟩
    · rw [hsame other hmem] at hfound
      exact ⟨other, List.mem_cons_of_mem _ hmem, session, hfound, husername⟩

include hrest

/-- The scopes that end with some sessions end with the first one or with the others. -/
theorem cancelled_cons (hnew : id ∉ ids) (scope : Scope) :
    scope ∈ g.cancelled ↔ scope ∈ h.cancelled ∨
      (∃ name run, h.runs.find? name = some run ∧ h.OwnsOneOf (id :: ids) name ∧
        scope = run.scope) ∨
      ∃ name user, h.users.find? name = some user ∧ ¬g.Owns name ∧ scope = user.scope := by
  have hone := ownsOneOf_cons hfirst hnew
  rw [hrest.cancelled, hfirst.cancelled]
  constructor
  · rintro ((hbefore | ⟨name, run, hrun, hended, hscope⟩ | ⟨name, user, huser, hgone, hscope⟩) |
      ⟨name, run, hrun, hended, hscope⟩ | ⟨name, user, huser, hgone, hscope⟩)
    · exact .inl hbefore
    · exact .inr (.inl ⟨name, run, hrun, (hone name).2 (.inl hended), hscope⟩)
    · exact .inr (.inr ⟨name, user, huser, fun howns => hgone (owns_of_rest hrest howns), hscope⟩)
    · refine .inr (.inl ⟨name, run, ?_, (hone name).2 (.inr hended), hscope⟩)
      by_cases hearlier : h.OwnsOneOf [id] name
      · rw [hfirst.stopped name hearlier] at hrun
        cases hrun
      · rwa [hfirst.running name hearlier] at hrun
    · obtain ⟨-, before, hbefore, rfl⟩ := hfirst.user_before huser
      rw [scope_allowance] at hscope
      exact .inr (.inr ⟨name, before, hbefore, hgone, hscope⟩)
  · rintro (hbefore | ⟨name, run, hrun, hended, hscope⟩ | ⟨name, user, huser, hgone, hscope⟩)
    · exact .inl (.inl hbefore)
    · by_cases hearlier : h.OwnsOneOf [id] name
      · exact .inl (.inr (.inl ⟨name, run, hrun, hearlier, hscope⟩))
      · have hlater := ((hone name).1 hended).resolve_left hearlier
        exact .inr (.inl ⟨name, run, by rw [hfirst.running name hearlier, hrun], hlater, hscope⟩)
    · by_cases howns : k.Owns name
      · rw [← scope_allowance user (h.shareOf k.population)] at hscope
        refine .inr (.inr ⟨name, _, ?_, hgone, hscope⟩)
        rw [hfirst.stayed name howns, huser, Option.map_some]
      · exact .inl (.inr (.inr ⟨name, user, huser, howns, hscope⟩))

/-- Sessions that are cleared one after the other are cleared together. -/
theorem cons (hnew : id ∉ ids) : Cleared (id :: ids) h g where
  sessions other := by
    rw [hrest.sessions, hfirst.sessions]
    by_cases hid : other = id
    · simp [hid]
    · simp [hid]
  stopped name hended := by
    by_cases hlater : k.OwnsOneOf ids name
    · exact hrest.stopped name hlater
    · rw [hrest.running name hlater]
      exact hfirst.stopped name
        (((ownsOneOf_cons hfirst hnew name).1 hended).resolve_right hlater)
  running name hgoes := by
    rw [ownsOneOf_cons hfirst hnew, not_or] at hgoes
    rw [hrest.running name hgoes.2, hfirst.running name hgoes.1]
  left := hrest.left
  stayed name howns := by
    have hshare := shareOf_congr (h := h) (g := k) (by rw [hfirst.rest]) (by rw [hfirst.rest])
    rw [hrest.stayed name howns, hfirst.stayed name (owns_of_rest hrest howns), Option.map_map,
      hshare]
    rfl
  inactive := by
    rw [hrest.inactive, hfirst.inactive, List.filter_filter]
    refine List.filter_congr fun name _ => ?_
    rw [Bool.and_eq_left_iff_imp]
    intro hregistered
    obtain ⟨user, huser⟩ := Table.contains_iff.1 hregistered
    obtain ⟨-, before, hbefore, -⟩ := hrest.user_before huser
    exact Table.contains_iff.2 ⟨before, hbefore⟩
  cancelled := cancelled_cons hfirst hrest hnew
  rest := by rw [hrest.rest, hfirst.rest]

end Cons

/-- What was cleared depends on the sessions that were removed and not on their order. -/
theorem sameTiers {others : List String} (hcleared : Cleared ids h g) (hagain : Cleared others h k)
    (hsame : ∀ id, id ∈ others ↔ id ∈ ids) : SameTiers g k := by
  have hsessions : k.sessions = g.sessions := by
    refine Table.ext_find? fun id => ?_
    simp only [hagain.sessions, hcleared.sessions, hsame]
  have howns := owns_congr hsessions
  have hone (name : String) : h.OwnsOneOf others name ↔ h.OwnsOneOf ids name := by
    simp only [OwnsOneOf, hsame]
  have hregistered (name : String) : k.users.contains name = g.users.contains name := by
    by_cases hstays : g.Owns name
    · simp [Table.contains, hcleared.stayed name hstays, hagain.stayed name ((howns name).2 hstays)]
    · have hgone : ¬k.Owns name := fun hstill => hstays ((howns name).1 hstill)
      simp [Table.contains, hcleared.left name hstays, hagain.left name hgone]
  have hpopulation : k.population = g.population := Table.size_eq_of_contains hregistered
  have husers : k.users = g.users := by
    refine Table.ext_find? fun name => ?_
    by_cases hstays : g.Owns name
    · rw [hcleared.stayed name hstays, hagain.stayed name ((howns name).2 hstays), hpopulation]
    · have hgone : ¬k.Owns name := fun hstill => hstays ((howns name).1 hstill)
      rw [hcleared.left name hstays, hagain.left name hgone]
  have hruns : k.runs = g.runs := by
    refine Table.ext_find? fun name => ?_
    by_cases hends : h.OwnsOneOf ids name
    · rw [hcleared.stopped name hends, hagain.stopped name ((hone name).2 hends)]
    · have hgoes : ¬h.OwnsOneOf others name := fun hother => hends ((hone name).1 hother)
      rw [hcleared.running name hends, hagain.running name hgoes]
  have hinactive : k.inactive = g.inactive := by
    rw [hagain.inactive, hcleared.inactive]
    exact List.filter_congr fun name _ => hregistered name
  refine ⟨fun scope => ?_, k.cancelled, k.journal, ?_⟩
  · simp only [hagain.cancelled, hcleared.cancelled, hone, howns]
  · rw [hagain.rest, hcleared.rest]
    simp only [hsessions, husers, hruns, hinactive]

/-- An event is no part of the tiers. -/
theorem emit (hcleared : Cleared ids h g) (event : Event) : Cleared ids h (g.emit event) where
  sessions := hcleared.sessions
  stopped := hcleared.stopped
  running := hcleared.running
  left := hcleared.left
  stayed := hcleared.stayed
  inactive := hcleared.inactive
  cancelled := hcleared.cancelled
  rest := by rw [hcleared.rest, Host.emit]

end Cleared

/-! ## Removing some sessions -/

/-- Known sessions are removed, all of them, in any order. -/
theorem removeSessions_spec (ha : h.Agrees) (hfair : h.SharesFairly) (hnodup : ids.Nodup)
    (hknown : ∀ id ∈ ids, h.hasSession id = true) :
    (h.removeSessions ids).1 = ids ∧ Cleared ids h (h.removeSessions ids).2 := by
  induction ids generalizing h with
  | nil => exact ⟨rfl, .nil ha hfair⟩
  | cons id rest ih =>
    obtain ⟨hnew, hnodup⟩ := List.nodup_cons.1 hnodup
    obtain ⟨session, hfound⟩ := Table.contains_iff.1 (hknown id List.mem_cons_self)
    have hfirst := Cleared.single ha hfair hfound
    obtain ⟨hresult, hafter⟩ := ha.removeSession_of_find? hfound
    have hchanges : Changes (fun _ => True) h (h.removeSession id).2 :=
      changes_removeSession trivial (fun _ => trivial) fun _ => trivial
    have hstill : ∀ other ∈ rest, (h.removeSession id).2.hasSession other = true := by
      intro other hmem
      have hother : other ≠ id := fun heq => hnew (heq ▸ hmem)
      have hthere := hknown other (List.mem_cons_of_mem _ hmem)
      simpa [hasSession, Table.contains, hfirst.sessions, hother] using hthere
    obtain ⟨hremoved, hrest⟩ := ih hafter (hfair.changes hchanges) hnodup hstill
    have hcleared := hfirst.cons hrest hnew
    have hremove : h.removeSession id = (.ok (), (h.removeSession id).2) := by
      rw [← hresult]
    unfold removeSessions
    rw [hremove]
    exact ⟨congrArg (id :: ·) hremoved, hcleared⟩

/-! ## A sweep -/

/-- The idle sessions are those of which the policy says so. -/
theorem mem_idleSessions : id ∈ h.idleSessions ↔
    ∃ session, h.sessions.find? id = some session ∧ h.IsIdle session := by
  rw [idleSessions, Table.mem_names, Table.contains_iff]
  simp [Table.find?_filter, Option.filter_eq_some_iff, IsIdle]

/-- No session is idle twice. -/
theorem nodup_idleSessions (h : Host) : h.idleSessions.Nodup := Table.nodup_names _

/-- Idle sessions are known. -/
theorem hasSession_of_idle : ∀ id ∈ h.idleSessions, h.hasSession id = true := by
  intro id hmem
  obtain ⟨session, hfound, -⟩ := mem_idleSessions.1 hmem
  exact Table.contains_iff.2 ⟨session, hfound⟩

/-- A sweep removes the idle sessions. -/
theorem sweep_spec (ha : h.Agrees) (hfair : h.SharesFairly) :
    h.sweep.1 = h.idleSessions ∧ Cleared h.idleSessions h h.sweep.2 := by
  obtain ⟨hremoved, hcleared⟩ :=
    removeSessions_spec ha hfair h.nodup_idleSessions hasSession_of_idle
  unfold sweep
  rcases hall : h.removeSessions h.idleSessions with ⟨_ | ⟨id, rest⟩, left⟩
  · rw [hall] at hremoved hcleared
    exact ⟨hremoved, hcleared⟩
  · rw [hall] at hremoved hcleared
    exact ⟨hremoved, hcleared.emit _⟩

/-- A sweep that finds no idle session does nothing. -/
theorem sweep_of_none (hnone : h.idleSessions = []) : h.sweep = ([], h) := by
  simp [sweep, hnone, removeSessions]

/-- After a sweep no session is idle. -/
theorem Cleared.idleSessions_eq (hcleared : Cleared h.idleSessions h g) : g.idleSessions = [] := by
  refine List.eq_nil_iff_forall_not_mem.2 fun id hmem => ?_
  obtain ⟨session, hfound, hidle⟩ := mem_idleSessions.1 hmem
  rw [hcleared.sessions] at hfound
  split_ifs at hfound with hgone
  have hsame : h.IsIdle session := by
    rw [hcleared.rest] at hidle
    exact hidle
  exact hgone (mem_idleSessions.2 ⟨session, hfound, hsame⟩)

/-- As long as users come and go only with their sessions, a sweep removes exactly the sessions that
are idle for longer than the policy allows, and tells each of them once. The other sessions stay as
they are; the users who own one of those stay, with the share of the new population, and the others
leave; the runs of those end who owned an idle session, and no others. In whichever order the idle
sessions are removed, it comes to the same, and a second sweep at the same time does nothing. -/
theorem idle_sweep_exact {policies : Policies} {sampler : Sampler} {timers : Bool} {start : Host}
    (hbuilt : IsBuilt policies sampler timers start) (actions : List Action)
    (hthrough : ∀ action ∈ actions, action.throughSessions = true) :
    let h := start.performAll actions
    let removed := h.sweep.1
    let g := h.sweep.2
    removed.Nodup ∧
      (∀ id, id ∈ removed ↔ ∃ session, h.sessions.find? id = some session ∧ h.IsIdle session) ∧
      Cleared removed h g ∧
      (∀ name, g.isRegistered name = true ↔
        ∃ id session, h.sessions.find? id = some session ∧ session.username = name ∧
          ¬h.IsIdle session) ∧
      (∀ order, order.Perm removed →
        (h.removeSessions order).1 = order ∧ SameTiers g (h.removeSessions order).2) ∧
      g.sweep = ([], g) := by
  have hserved : start.served ≤ start.clock := hbuilt.quiet.served le_rfl
  have ha : (start.performAll actions).Agrees :=
    ((agrees_empty policies sampler timers _).quiet hbuilt.quiet).performAll hthrough hserved
  have hfair := (hbuilt.isReachable actions).sharesFairly
  have hswept : (start.performAll actions).sweep.2.Agrees := firing_agrees.sweep _ ha
  dsimp only
  generalize start.performAll actions = h at ha hfair hswept ⊢
  obtain ⟨hremoved, hcleared⟩ := sweep_spec ha hfair
  rw [hremoved]
  refine ⟨h.nodup_idleSessions, fun id => mem_idleSessions, hcleared, fun name => ?_,
    fun order hperm => ?_, sweep_of_none hcleared.idleSessions_eq⟩
  · rw [← hswept.owns_iff, Owns]
    constructor
    · rintro ⟨id, session, hfound, husername⟩
      rw [hcleared.sessions] at hfound
      split_ifs at hfound with hstays
      exact ⟨id, session, hfound, husername,
        fun hidle => hstays (mem_idleSessions.2 ⟨session, hfound, hidle⟩)⟩
    · rintro ⟨id, session, hfound, husername, hactive⟩
      refine ⟨id, session, ?_, husername⟩
      have hstays : id ∉ h.idleSessions := by
        intro hmem
        obtain ⟨other, hother, hidle⟩ := mem_idleSessions.1 hmem
        rw [hfound] at hother
        cases hother
        exact hactive hidle
      rw [hcleared.sessions, if_neg hstays, hfound]
  · have hsame (id : String) : id ∈ order ↔ id ∈ h.idleSessions := hperm.mem_iff
    obtain ⟨htold, hagain⟩ := removeSessions_spec ha hfair (hperm.nodup_iff.2 h.nodup_idleSessions)
      fun id hmem => hasSession_of_idle id ((hsame id).1 hmem)
    exact ⟨htold, hcleared.sameTiers hagain hsame⟩

/-- Two users leave their desks, and one of them comes back by phone. -/
theorem idle_sweep_exact_of_two_desks :
    ∃ start, IsBuilt {} ⟨⟨100, 0, 2048, 0⟩, none⟩ true start ∧
      let h := start.performAll
        [.registerSession "desk" "ana" "10.0.0.1", .registerSession "shop" "bob" "10.0.0.2",
          .start "ana" "demo", .jump 1900000, .registerSession "phone" "ana" "10.0.0.3"]
      h.sweep.1 = ["desk", "shop"] ∧ h.sweep.2.isRegistered "ana" = true ∧
        h.sweep.2.isRegistered "bob" = false ∧ h.sweep.2.isRunning "ana" = false ∧
        SameTiers h.sweep.2 (h.removeSessions ["shop", "desk"]).2 ∧
        h.sweep.2.sweep = ([], h.sweep.2) := by
  refine ⟨_, .of_build rfl, ?_⟩
  have hbuilt : IsBuilt {} ⟨⟨100, 0, 2048, 0⟩, none⟩ true _ := .of_build rfl
  obtain ⟨-, -, -, -, horder, hagain⟩ := idle_sweep_exact hbuilt
    [.registerSession "desk" "ana" "10.0.0.1", .registerSession "shop" "bob" "10.0.0.2",
      .start "ana" "demo", .jump 1900000, .registerSession "phone" "ana" "10.0.0.3"] (by decide)
  exact ⟨rfl, rfl, rfl, rfl, (horder ["shop", "desk"] (.swap "desk" "shop" [])).2, hagain⟩

end Steward.Host
