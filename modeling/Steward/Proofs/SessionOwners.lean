import Steward.Proofs.Enrolment

/-!
# Owners of sessions

As long as users come and go only with their sessions, the tiers agree on who is there: the
registered users are the owners of sessions, and runs belong to them. The agreement looks at the
roster of users, at the owners and addresses of sessions and at the users of runs, and only the
opening and closing of sessions touches those.
-/

namespace Steward

/-- Whether a change leaves alone who is registered and who owns which session. -/
def Effect.isGentle : Effect → Prop
  | .joined _ | .left _ | .opened _ | .closed _ => False
  | _ => True

namespace Host

/-- The registered names. -/
def roster (h : Host) : Table Unit := h.enrolled.map fun _ => ()

/-- The roster lists the registered users. -/
theorem roster_eq (h : Host) : h.roster = h.users.map fun _ => () := Table.map_map _ _ _

/-- A registered user stands on the roster. -/
theorem contains_roster (h : Host) (name : String) :
    h.roster.contains name = h.users.contains name := by
  rw [roster_eq, Table.contains_map]

/-- The owner and the address of each session. -/
def owners (h : Host) : Table (String × String) :=
  h.sessions.map fun session => (session.username, session.address)

/-- The tiers agree on who is there, and the caps hold. -/
structure Agrees (h : Host) : Prop where
  registered_iff : ∀ name, h.roster.contains name = true ↔
    ∃ id address, h.owners.find? id = some (name, address)
  runs_registered : ∀ name, h.runs.contains name = true → h.roster.contains name = true
  perUser : ∀ name,
    h.owners.values.countP (fun owner => owner.1 = name) ≤ h.policies.session.maxPerUser
  perAddress : ∀ address,
    h.owners.values.countP (fun owner => owner.2 = address) ≤ h.policies.session.maxPerAddress
  room : h.roster.size ≤ h.policies.system.maxUsers

/-! ## Gentle changes -/

section Gentle

variable {effect : Effect} {h g : Host}

/-- A gentle change keeps the roster. -/
theorem Change.roster_eq (hchange : Change effect h g) (hgentle : effect.isGentle) :
    g.roster = h.roster := by
  have hkeeps : effect.keepsUsers := by
    cases effect <;> trivial
  rw [roster, hchange.enrolled_eq hkeeps, roster]

/-- Replacing a session by one of the same owner and address keeps the owners. -/
theorem owners_insert {h : Host} {id : String} {old new : Session}
    (hfound : h.sessions.find? id = some old) (husername : new.username = old.username)
    (haddress : new.address = old.address) :
    (h.sessions.insert id new).map (fun session => (session.username, session.address)) =
      h.owners := by
  rw [Table.map_insert]
  exact Table.insert_of_find? (by simp [hfound, husername, haddress])

/-- A gentle change keeps the owners. -/
theorem Change.owners_eq (hchange : Change effect h g) (hgentle : effect.isGentle) :
    g.owners = h.owners := by
  cases hchange with
  | opened => exact hgentle.elim
  | closed => exact hgentle.elim
  | left => exact hgentle.elim
  | refreshed hfound => exact owners_insert hfound rfl rfl
  | checked hfound husername haddress => exact owners_insert hfound husername haddress
  | released => simp only [releaseWorker]; split_ifs <;> rfl
  | _ => simp [owners, welcome, reshare, spreadUsage]

/-- Only a registered user gets a run. -/
theorem Change.runs_registered (hchange : Change effect h g) (hgentle : effect.isGentle)
    (hruns : ∀ name, h.runs.contains name = true → h.roster.contains name = true) (name : String)
    (hrun : g.runs.contains name = true) : h.roster.contains name = true := by
  cases hchange with
  | launched hfound =>
    obtain ⟨run, hrun⟩ := Table.contains_iff.1 hrun
    rw [Table.find?_insert] at hrun
    split_ifs at hrun with hname
    · rw [contains_roster, hname]
      exact Table.contains_iff.2 ⟨_, hfound⟩
    · exact hruns name (Table.contains_iff.2 ⟨run, hrun⟩)
  | counted hfound =>
    obtain ⟨run, hrun⟩ := Table.contains_iff.1 hrun
    rw [Table.find?_insert] at hrun
    split_ifs at hrun with hname
    · exact hruns name (Table.contains_iff.2 ⟨_, hname ▸ hfound⟩)
    · exact hruns name (Table.contains_iff.2 ⟨run, hrun⟩)
  | ended hfound =>
    obtain ⟨run, hrun⟩ := Table.contains_iff.1 hrun
    rw [runs_cancel, Table.find?_erase] at hrun
    split_ifs at hrun
    exact hruns name (Table.contains_iff.2 ⟨run, hrun⟩)
  | left => exact hgentle.elim
  | released =>
    refine hruns name ?_
    simp only [releaseWorker] at hrun
    split_ifs at hrun <;> exact hrun
  | _ => exact hruns name (by simpa [welcome, reshare, spreadUsage] using hrun)

namespace Agrees

/-- What leaves owners, roster and policies alone keeps the agreement. -/
theorem frame (ha : h.Agrees) (howners : g.owners = h.owners) (hroster : g.roster = h.roster)
    (hpolicies : g.policies = h.policies)
    (hruns : ∀ name, g.runs.contains name = true → h.roster.contains name = true) : g.Agrees where
  registered_iff := by rw [howners, hroster]; exact ha.registered_iff
  runs_registered := by rw [hroster]; exact hruns
  perUser := by rw [howners, hpolicies]; exact ha.perUser
  perAddress := by rw [howners, hpolicies]; exact ha.perAddress
  room := by rw [hroster, hpolicies]; exact ha.room

/-- Quiet changes keep the agreement. -/
theorem quiet (ha : h.Agrees) (hquiet : Quiet h g) : g.Agrees :=
  ha.frame (by simp [owners, hquiet.sessions]) (by rw [roster, hquiet.enrolled_eq, roster])
    hquiet.policies (by rw [hquiet.runs]; exact ha.runs_registered)

/-- Gentle changes keep the agreement. -/
theorem gentle (ha : h.Agrees) (hchanges : Changes Effect.isGentle h g) : g.Agrees := by
  refine hchanges.preserves (fun hquiet ha => ha.quiet hquiet) ?_ ha
  intro effect a b hgentle hchange ha
  exact ha.frame (hchange.owners_eq hgentle) (hchange.roster_eq hgentle) hchange.sameBuild.policies
    (hchange.runs_registered hgentle ha.runs_registered)

end Agrees

end Gentle

/-! ## Opening a session -/

section Opening

variable {h g : Host} {id user address : String}

/-- Sessions are counted by their owners and addresses. -/
theorem sessionCount_owners (h : Host) (test : String × String → Bool) :
    h.sessionCount (fun session => test (session.username, session.address)) =
      h.owners.values.countP test := by
  rw [owners, Table.values_map, List.countP_map]
  rfl

/-- A new user joins the roster. -/
theorem roster_welcome (h : Host) (name : String) :
    (h.welcome name).roster = h.roster.insert name () := by
  simp only [roster_eq, welcome, reshare]
  rw [Table.map_map, Table.map_insert]

namespace Agrees

/-- A session that fits the caps may be added together with its owner. -/
theorem opened (ha : h.Agrees) (hnew : h.owners.find? id = none)
    (howners : g.owners = h.owners.insert id (user, address))
    (hroster : g.roster = h.roster.insert user ()) (hpolicies : g.policies = h.policies)
    (hruns : g.runs = h.runs)
    (hofUser : h.owners.values.countP (fun owner => owner.1 = user) < h.policies.session.maxPerUser)
    (hofAddress : h.owners.values.countP (fun owner => owner.2 = address) <
      h.policies.session.maxPerAddress)
    (hroom : g.roster.size ≤ h.policies.system.maxUsers) : g.Agrees where
  registered_iff name := by
    rw [howners, hroster, Table.contains_iff, Table.find?_insert]
    split_ifs with hname
    · subst hname
      exact ⟨fun _ => ⟨id, address, Table.find?_insert_self ..⟩, fun _ => ⟨(), rfl⟩⟩
    · rw [← Table.contains_iff, ha.registered_iff]
      constructor
      · rintro ⟨other, place, hfound⟩
        have hother : other ≠ id := by
          rintro rfl
          rw [hnew] at hfound
          cases hfound
        exact ⟨other, place, by rwa [Table.find?_insert_of_ne _ _ hother]⟩
      · rintro ⟨other, place, hfound⟩
        rw [Table.find?_insert] at hfound
        split_ifs at hfound with hother
        · cases hfound
          exact absurd rfl hname
        · exact ⟨other, place, hfound⟩
  runs_registered name hrun := by
    rw [hruns] at hrun
    have hmember := ha.runs_registered name hrun
    rw [Table.contains_iff] at hmember
    rw [hroster, Table.contains_iff, Table.find?_insert]
    split_ifs
    · exact ⟨(), rfl⟩
    · exact hmember
  perUser name := by
    rw [howners, hpolicies, Table.countP_values_insert_of_find?_eq_none _ _ hnew]
    by_cases hname : user = name
    · subst hname
      simpa using Nat.succ_le_of_lt hofUser
    · simpa [hname] using ha.perUser name
  perAddress place := by
    rw [howners, hpolicies, Table.countP_values_insert_of_find?_eq_none _ _ hnew]
    by_cases hplace : address = place
    · subst hplace
      simpa using Nat.succ_le_of_lt hofAddress
    · simpa [hplace] using ha.perAddress place
  room := by rw [hpolicies]; exact hroom

end Agrees

/-- A recorded session has its owner and its address. -/
theorem owners_openSession (h : Host) (id user address : String) (first : Bool) :
    (h.openSession id user address first).owners = h.owners.insert id (user, address) := by
  cases first <;> exact Table.map_insert _ _ _ _

/-- Registering a session keeps the agreement. -/
theorem Agrees.registerSession (ha : h.Agrees) (id user address : String) :
    (h.registerSession id user address).2.Agrees := by
  unfold Host.registerSession
  cases hfound : h.sessions.find? id with
  | some session =>
    have hgentle : Changes Effect.isGentle h (h.refreshSession id user session) :=
      changes_refreshSession trivial hfound user
    exact ha.gentle hgentle
  | none =>
    have hnew : h.owners.find? id = none := by simp [owners, hfound]
    have hofUser := h.sessionCount_owners fun owner => owner.1 = user
    have hofAddress := h.sessionCount_owners fun owner => owner.2 = address
    dsimp only at hofUser hofAddress ⊢
    split_ifs with hmany hnear
    · exact ha.quiet (h.quiet_emit _)
    · exact ha.quiet (h.quiet_emit _)
    · rw [hofUser] at hmany
      rw [hofAddress] at hnear
      simp only [Host.registerUser]
      split_ifs with hknown hfull
      · have hmember : h.roster.insert user () = h.roster := by
          obtain ⟨record, hrecord⟩ := Table.contains_iff.1 hknown
          exact Table.insert_of_find? (by simp [roster_eq, hrecord])
        exact ha.opened hnew (owners_openSession h ..) hmember.symm rfl rfl (by omega) (by omega)
          ha.room
      · exact ha.quiet (h.quiet_emit _)
      · have hfresh : h.roster.find? user = none := by
          rw [← Table.contains_eq_false, contains_roster]
          exact Bool.eq_false_iff.2 hknown
        have hsize : (h.roster.insert user ()).size = h.users.size + 1 := by
          rw [Table.size_insert_of_find?_eq_none _ hfresh, roster_eq, Table.size_map]
        refine ha.opened hnew (owners_openSession _ ..) (h.roster_welcome user) rfl rfl
          (by omega) (by omega) ?_
        calc (h.welcome user).roster.size = h.users.size + 1 := by rw [roster_welcome, hsize]
          _ ≤ h.policies.system.maxUsers := by omega

end Opening

/-! ## Closing a session -/

section Closing

variable {h g : Host} {id user address : String}

/-- A user who is taken out leaves the roster. -/
theorem roster_removeUser (h : Host) (name : String) (record : User) :
    (h.removeUser name record).roster = h.roster.erase name := by
  rw [roster, enrolled_removeUser, Table.map_map, roster, ← Table.map_erase]

/-- A registered user is retired without a fault, together with the run. -/
theorem retireUser_of_contains (hknown : h.users.contains user = true) :
    (h.retireUser user).1 = .ok () ∧ (h.retireUser user).2.roster = h.roster.erase user ∧
      (h.retireUser user).2.owners = h.owners ∧ (h.retireUser user).2.policies = h.policies ∧
      (h.retireUser user).2.runs = h.runs.erase user := by
  obtain ⟨record, hfound⟩ := Table.contains_iff.1 hknown
  obtain ⟨husers, hsessions, hpolicies, hruns⟩ := h.stopIfRunning_eq user .userUnregistered
  rw [retireUser, unregisterUser_of_find? (husers ▸ hfound)]
  refine ⟨rfl, ?_, ?_, ?_, ?_⟩
  · exact (roster_removeUser ..).trans (by rw [roster_eq, husers, roster_eq])
  · simp [owners, emit, removeUser, reshare, hsessions]
  · simp [emit, removeUser, reshare, hpolicies]
  · simp [emit, removeUser, reshare, hruns]

/-- The host after a session was dropped and its owner's run ended. -/
def dropSession (h : Host) (id user : String) : Host :=
  ({ h with sessions := h.sessions.erase id }.stopIfRunning user .requested).2

/-- Removing a session drops it and then retires an owner without sessions. -/
theorem removeSession_eq {session : Session} (hfound : h.sessions.find? id = some session) :
    ∃ event, h.removeSession id =
      let idle := h.dropSession id session.username
      let outcome :=
        if idle.sessionCount (fun other => other.username = session.username) = 0 then
          idle.retireUser session.username
        else (.ok (), idle)
      (outcome.1, outcome.2.emit event) := by
  unfold removeSession
  rw [hfound]
  exact ⟨_, rfl⟩

/-- Dropping a session leaves the roster for later. -/
theorem dropSession_eq (h : Host) (id user : String) :
    (h.dropSession id user).owners = h.owners.erase id ∧
      (h.dropSession id user).roster = h.roster ∧ (h.dropSession id user).users = h.users ∧
      (h.dropSession id user).policies = h.policies ∧
      (h.dropSession id user).runs = h.runs.erase user := by
  obtain ⟨husers, hsessions, hpolicies, hruns⟩ :=
    { h with sessions := h.sessions.erase id }.stopIfRunning_eq user .requested
  refine ⟨?_, ?_, husers, hpolicies, hruns⟩
  · rw [owners, dropSession, hsessions, owners, ← Table.map_erase]
  · rw [roster_eq, dropSession, husers, roster_eq]

namespace Agrees

/-- A session may go; its owner stays as long as another session is left. -/
theorem closed (ha : h.Agrees) (hfound : h.owners.find? id = some (user, address))
    (howners : g.owners = h.owners.erase id) (hpolicies : g.policies = h.policies)
    (hruns : g.runs = h.runs.erase user)
    (hroster : g.roster = if g.owners.values.countP (fun owner => owner.1 = user) = 0
      then h.roster.erase user else h.roster) : g.Agrees where
  registered_iff name := by
    by_cases hname : name = user
    · subst hname
      have hlast : g.owners.values.countP (fun owner => owner.1 = name) = 0 ↔ _ :=
        Table.countP_values_eq_zero
      rw [hroster]
      split_ifs with hnone
      · have hgone := hlast.1 hnone
        constructor
        · simp [Table.contains]
        · rintro ⟨other, place, hother⟩
          simpa using hgone other _ hother
      · have hmember := (ha.registered_iff name).2 ⟨id, address, hfound⟩
        refine ⟨fun _ => ?_, fun _ => hmember⟩
        by_contra hgone
        refine hnone (hlast.2 fun other owner hother => ?_)
        obtain ⟨owning, place⟩ := owner
        exact decide_eq_false fun howning => hgone ⟨other, place, howning ▸ hother⟩
    · have hsame : g.roster.contains name = h.roster.contains name := by
        rw [hroster]
        split_ifs
        · simp [Table.contains, Table.find?_erase_of_ne _ hname]
        · rfl
      rw [hsame, ha.registered_iff]
      have hother (other place : String) : g.owners.find? other = some (name, place) ↔
          h.owners.find? other = some (name, place) := by
        rw [howners, Table.find?_erase]
        split_ifs with hid
        · rw [hid, hfound]
          simp [Ne.symm hname]
        · rfl
      simp only [hother]
  runs_registered name hrun := by
    rw [hruns] at hrun
    obtain ⟨run, hrun⟩ := Table.contains_iff.1 hrun
    rw [Table.find?_erase] at hrun
    split_ifs at hrun with hname
    have hmember := ha.runs_registered name (Table.contains_iff.2 ⟨run, hrun⟩)
    rw [hroster]
    split_ifs
    · simpa [Table.contains, Table.find?_erase_of_ne _ hname] using hmember
    · exact hmember
  perUser name := by
    rw [howners, hpolicies]
    refine le_trans ?_ (ha.perUser name)
    rw [Table.countP_values_of_find? _ hfound]
    exact Nat.le_add_right _ _
  perAddress place := by
    rw [howners, hpolicies]
    refine le_trans ?_ (ha.perAddress place)
    rw [Table.countP_values_of_find? _ hfound]
    exact Nat.le_add_right _ _
  room := by
    rw [hroster, hpolicies]
    refine le_trans ?_ ha.room
    split_ifs
    · exact List.length_filter_le ..
    · exact le_rfl

/-- Removing a known session succeeds and keeps the agreement. -/
theorem removeSession_of_find? {session : Session} (ha : h.Agrees)
    (hfound : h.sessions.find? id = some session) :
    (h.removeSession id).1 = .ok () ∧ (h.removeSession id).2.Agrees := by
  have howner : h.owners.find? id = some (session.username, session.address) := by
    simp [owners, hfound]
  have hmember : h.users.contains session.username = true := by
    rw [← contains_roster, ha.registered_iff]
    exact ⟨id, session.address, howner⟩
  obtain ⟨howners, hroster, husers, hpolicies, hruns⟩ := h.dropSession_eq id session.username
  obtain ⟨event, hremove⟩ := removeSession_eq hfound
  rw [hremove]
  dsimp only
  generalize h.dropSession id session.username = idle at *
  have hcount := idle.sessionCount_owners fun owner => owner.1 = session.username
  dsimp only at hcount
  by_cases hlast : idle.sessionCount (fun other => other.username = session.username) = 0
  · rw [if_pos hlast]
    obtain ⟨hresult, hleft, hsame, hsimilar, hended⟩ :=
      idle.retireUser_of_contains (husers ▸ hmember)
    refine ⟨hresult, .quiet ?_ (quiet_emit _ event)⟩
    rw [hcount] at hlast
    refine ha.closed howner (hsame.trans howners) (hsimilar.trans hpolicies) ?_ ?_
    · refine hended.trans ?_
      rw [hruns, Table.erase_of_find?_eq_none (Table.find?_erase_self ..)]
    · have hnone : (idle.retireUser session.username).2.owners.values.countP
          (fun owner => owner.1 = session.username) = 0 := by rwa [hsame]
      exact (hleft.trans (by rw [hroster])).trans (if_pos hnone).symm
  · rw [if_neg hlast]
    refine ⟨rfl, .quiet ?_ (quiet_emit _ event)⟩
    rw [hcount] at hlast
    exact ha.closed howner howners hpolicies hruns (hroster.trans (if_neg hlast).symm)

end Agrees

end Closing

/-! ## Any history through sessions -/

/-- Removing a session, known or not, keeps the agreement. -/
theorem Agrees.removeSession {h : Host} (ha : h.Agrees) (id : String) :
    (h.removeSession id).2.Agrees := by
  cases hfound : h.sessions.find? id with
  | none => simpa [Host.removeSession, hfound] using ha
  | some session => exact (ha.removeSession_of_find? hfound).2

/-- Whatever fires, the agreement is kept. -/
theorem firing_agrees : Firing fun h g => h.Agrees → g.Agrees :=
  .of_quiet (fun _ ha => ha) (fun hg hk ha => hk (hg ha)) (fun hquiet ha => ha.quiet hquiet)
    (fun reason hfound ha => ha.gentle (changes_endRun trivial hfound _ rfl reason))
    (fun _ ha => ha.gentle (changes_monitorCycle trivial)) (fun _ id ha => ha.removeSession id)

/-- Whatever fires, and whenever, the agreement is kept. -/
theorem timing_agrees : Timing fun h g => h.Agrees → g.Agrees :=
  firing_agrees.timing fun _ ha => ha.frame rfl rfl rfl ha.runs_registered

/-- Where neither sessions nor users come and go, all effects are gentle. -/
theorem isGentle_of_causes {action : Action} (hthrough : action.throughSessions = true)
    (hpatrols : action.patrols = false)
    (hopens : ∀ session user address, action ≠ .registerSession session user address)
    (hcloses : ∀ session, action ≠ .unregisterSession session) {effect : Effect}
    (hcause : action.causes effect) : effect.isGentle := by
  cases effect with
  | joined user =>
    rcases hcause with rfl | ⟨session, address, rfl⟩
    · cases hthrough
    · exact absurd rfl (hopens session user address)
  | left user =>
    rcases hcause with rfl | rfl | ⟨session, rfl⟩ | hcause
    · cases hthrough
    · cases hthrough
    · exact absurd rfl (hcloses session)
    · rw [hpatrols] at hcause
      cases hcause
  | opened session =>
    obtain ⟨user, address, rfl⟩ := hcause
    exact absurd rfl (hopens session user address)
  | closed session =>
    rcases hcause with rfl | hcause
    · exact absurd rfl (hcloses session)
    · rw [hpatrols] at hcause
      cases hcause
  | _ => trivial

/-- An action that leaves registration to sessions keeps the agreement. -/
theorem Agrees.perform {h : Host} (ha : h.Agrees) {action : Action}
    (hthrough : action.throughSessions = true) (hserved : h.served ≤ h.clock) :
    (h.perform action).Agrees := by
  have hgentle (hpatrols : action.patrols = false)
      (hopens : ∀ session user address, action ≠ .registerSession session user address)
      (hcloses : ∀ session, action ≠ .unregisterSession session) : (h.perform action).Agrees :=
    ha.gentle ((h.perform_changes action hserved).mono
      fun _ => isGentle_of_causes hthrough hpatrols hopens hcloses)
  have hshut (g : Host) (hg : g.Agrees) : (g.cancel .background).Agrees := by
    have hcancelled : Change (.cancelled .background) g (g.cancel .background) :=
      .cancelled (.inr rfl)
    have hsoft : (Effect.cancelled .background).isGentle := trivial
    exact hg.gentle (.single hsoft hcancelled)
  cases action with
  | registerSession session user address => exact ha.registerSession session user address
  | unregisterSession session =>
    exact (ha.removeSession session).quiet (quiet_reportUnknown _ _ _)
  | monitorCycle => exact firing_agrees.surveyed h ha
  | guardCycle => exact firing_agrees.guardCycle h ha
  | sweep => exact firing_agrees.sweep h ha
  | spawnPatrols => exact firing_agrees.spawnPatrols timing_agrees h ha
  | spawnSleeper millis cancellable =>
    exact firing_agrees.spawnSleeper timing_agrees h millis cancellable ha
  | shutdown millis => exact timing_agrees.shutdown hshut h millis hserved ha
  | advance millis => exact timing_agrees.advance h millis ha
  | sleep millis => exact timing_agrees.sleep h millis ha
  | _ => exact hgentle rfl (by simp) (by simp)

/-- Actions that leave registration to sessions keep the agreement. -/
theorem Agrees.performAll {h : Host} (ha : h.Agrees) {actions : List Action}
    (hthrough : ∀ action ∈ actions, action.throughSessions = true) (hserved : h.served ≤ h.clock) :
    (h.performAll actions).Agrees := by
  induction actions generalizing h with
  | nil => exact ha
  | cons action rest ih =>
    have hfirst := ha.perform (hthrough action List.mem_cons_self) hserved
    have hlater := (h.perform_changes action hserved).served_le hserved
    exact ih hfirst (fun other hother => hthrough other (List.mem_cons_of_mem _ hother)) hlater

/-- In the empty host the tiers agree that nobody is there. -/
theorem agrees_empty (policies : Policies) (sampler : Sampler) (timers : Bool)
    (clockEnd : Span) : (empty policies sampler timers clockEnd).Agrees where
  registered_iff name := by
    rw [contains_roster]
    simp [owners, empty, Table.contains]
  runs_registered name hrun := by simp [empty, Table.contains] at hrun
  perUser name := Nat.zero_le _
  perAddress address := Nat.zero_le _
  room := Nat.zero_le _

/-- Whether a name owns a session. -/
def Owns (h : Host) (name : String) : Prop :=
  ∃ id session, h.sessions.find? id = some session ∧ session.username = name

/-- Where the tiers agree, the owners of sessions are the users on the roster. -/
theorem Agrees.owns_iff {h : Host} (ha : h.Agrees) (name : String) :
    h.Owns name ↔ h.isRegistered name = true := by
  rw [isRegistered, ← contains_roster, ha.registered_iff]
  constructor
  · rintro ⟨id, session, hfound, rfl⟩
    exact ⟨id, session.address, by simp [owners, hfound]⟩
  · rintro ⟨id, address, hfound⟩
    simp only [owners, Table.find?_map, Option.map_eq_some_iff, Prod.mk.injEq] at hfound
    obtain ⟨session, hsession, husername, -⟩ := hfound
    exact ⟨id, session, hsession, husername⟩

/-- As long as users come and go only with their sessions, the tiers agree on who is there: the
registered users are the owners of sessions, runs belong to owners of sessions, no cap is passed,
and every session can be unregistered. -/
theorem tiers_agree {policies : Policies} {sampler : Sampler} {timers : Bool} {start : Host}
    (hbuilt : IsBuilt policies sampler timers start) (actions : List Action)
    (hthrough : ∀ action ∈ actions, action.throughSessions = true) :
    let h := start.performAll actions
    (∀ name, h.isRegistered name = true ↔ h.Owns name) ∧
      (∀ name, h.isRunning name = true → h.Owns name) ∧
      (∀ name, h.sessionCount (fun session => session.username = name) ≤
        policies.session.maxPerUser) ∧
      (∀ address, h.sessionCount (fun session => session.address = address) ≤
        policies.session.maxPerAddress) ∧
      h.population ≤ policies.system.maxUsers ∧
      ∀ id, h.hasSession id = true → (h.unregisterSession id).1 = .ok () := by
  have hquiet := hbuilt.quiet
  have hserved : start.served ≤ start.clock := hquiet.served le_rfl
  have ha : (start.performAll actions).Agrees :=
    ((agrees_empty policies sampler timers _).quiet hquiet).performAll hthrough hserved
  have hpolicies : (start.performAll actions).policies = policies :=
    (start.performAll_changes actions hserved).policies_eq.trans hquiet.policies
  dsimp only
  generalize start.performAll actions = h at ha hpolicies
  subst hpolicies
  refine ⟨fun name => (ha.owns_iff name).symm, ?_, ?_, ?_, ?_, ?_⟩
  · intro name hrun
    rw [ha.owns_iff, isRegistered, ← contains_roster]
    exact ha.runs_registered name hrun
  · intro name
    exact (h.sessionCount_owners fun owner => owner.1 = name).trans_le (ha.perUser name)
  · intro address
    exact (h.sessionCount_owners fun owner => owner.2 = address).trans_le (ha.perAddress address)
  · have hsize : h.roster.size = h.population := by rw [roster_eq, Table.size_map, population]
    exact hsize ▸ ha.room
  · intro id hknown
    obtain ⟨session, hfound⟩ := Table.contains_iff.1 hknown
    have hresult := (ha.removeSession_of_find? hfound).1
    unfold unregisterSession
    rcases hremove : h.removeSession id with ⟨result, left⟩
    rw [hremove] at hresult
    dsimp only at hresult
    subst hresult
    rfl

/-- Two sessions of one user, of which the first leaves while a program runs. -/
theorem tiers_agree_of_two_sessions :
    ∃ start, IsBuilt {} ⟨⟨100, 0, 2048, 0⟩, none⟩ true start ∧
      let h := start.performAll
        [.registerSession "desk" "ana" "10.0.0.1", .registerSession "phone" "ana" "10.0.0.2",
          .start "ana" "demo", .unregisterSession "desk", .sweep]
      h.isRegistered "ana" = true ∧ h.Owns "ana" ∧ (h.unregisterSession "phone").1 = .ok () := by
  refine ⟨_, .of_build rfl, ?_⟩
  have hbuilt : IsBuilt {} ⟨⟨100, 0, 2048, 0⟩, none⟩ true _ := .of_build rfl
  obtain ⟨hregistered, -, -, -, -, hclose⟩ := tiers_agree hbuilt
    [.registerSession "desk" "ana" "10.0.0.1", .registerSession "phone" "ana" "10.0.0.2",
      .start "ana" "demo", .unregisterSession "desk", .sweep] (by decide)
  exact ⟨rfl, (hregistered "ana").1 rfl, hclose "phone" rfl⟩

end Host

end Steward
