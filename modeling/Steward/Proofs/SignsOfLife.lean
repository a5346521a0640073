import Steward.Proofs.IdleFlags
import Steward.Proofs.RateWindows
import Mathlib.Data.List.Induction

/-!
# Signs of life

A session and its owner each keep when they last showed a sign of life. Most signs of a session are
signs of its owner too, but not all: a session that connects again, a further session of a user who
is registered, and a message that is refused are signs of the session alone. So an owner may count
as idle while a session of the owner's is active, and only after one of these.
-/

namespace Steward

/-- Whether a change is no sign of life of a session. -/
def Effect.keepsSigns : Effect → Prop
  | .opened _ | .refreshed _ | .checked _ => False
  | _ => True

/-- Whether an action is no sign of life of a session. -/
def Action.keepsSigns : Action → Bool
  | .registerSession .. | .checkSession .. => false
  | _ => true

namespace Host

/-- Whether an action is a sign of life of a session and none of its owner: the session connects
again, or is a further one of a registered user, or a message of it is refused. -/
def Neglects (h : Host) (id : String) : Action → Prop
  | .registerSession session user address =>
    session = id ∧ (h.registerSession session user address).1 = .ok () ∧
      (h.hasSession id = true ∨ h.isRegistered user = true)
  | .checkSession session size =>
    session = id ∧ h.hasSession id = true ∧ (h.checkSession session size).1 ≠ .ok ()
  | _ => False

/-- Whether some actions included, at a time, a sign of life of a session and none of its owner. -/
def NeglectedAt (start : Host) (actions : List Action) (id : String) (time : Nat) : Prop :=
  ∃ earlier action later, actions = earlier ++ action :: later ∧
    (start.performAll earlier).Neglects id action ∧ time = (start.performAll earlier).clock

/-- No session shows a sign of life in the future, and owners show theirs no earlier than their
sessions, save for excused ones. -/
structure Attends (excused : String → Nat → Prop) (h : Host) : Prop where
  past : ∀ id session, h.sessions.find? id = some session → session.lastActivity ≤ h.clock
  owners : ∀ id session user, h.sessions.find? id = some session →
    h.users.find? session.username = some user →
    min session.lastActivity wordMax ≤ user.lastActivity ∨ excused id session.lastActivity

variable {effect : Effect} {may : Effect → Prop} {h g k : Host} {id name : String}
  {excused : String → Nat → Prop}

/-! ## Signs of users -/

/-- When each user last showed a sign of life. -/
def lastSigns (h : Host) : Table Nat := h.users.map User.lastActivity

/-- The last sign of a user who is found. -/
theorem find?_lastSigns {user : User} (hfound : h.users.find? name = some user) :
    h.lastSigns.find? name = some user.lastActivity := by
  rw [lastSigns, Table.find?_map, hfound]
  rfl

/-- Changing the record of a user but not the last sign keeps the last signs. -/
theorem lastSigns_insert {old new : User} (hfound : h.users.find? name = some old)
    (hsame : new.lastActivity = old.lastActivity) :
    (h.users.insert name new).map User.lastActivity = h.lastSigns := by
  rw [Table.map_insert, hsame]
  exact Table.insert_of_find? (find?_lastSigns hfound)

/-- Giving back a slot keeps the last signs. -/
theorem lastSigns_releaseWorker (h : Host) (permit : Permit) :
    (h.releaseWorker permit).lastSigns = h.lastSigns := by
  simp only [releaseWorker]
  split_ifs
  · simp only [lastSigns]
    split
    · next user hfound =>
      split_ifs
      · exact lastSigns_insert hfound rfl
      · rfl
    · rfl
  · rfl

/-- After a change a user's last sign of life is of the present, or it is the one from before. -/
theorem Change.lastSigns_cases (hchange : Change effect h g) {time : Nat}
    (hfound : g.lastSigns.find? name = some time) :
    time = h.stamp ∨ h.lastSigns.find? name = some time := by
  have hinserted {other : String} {record : User} (hnow : record.lastActivity = h.stamp)
      (hlast : ((h.users.insert other record).map User.lastActivity).find? name = some time) :
      time = h.stamp ∨ h.lastSigns.find? name = some time := by
    rw [Table.map_insert, Table.find?_insert] at hlast
    split_ifs at hlast
    · cases hlast
      exact .inl hnow
    · exact .inr hlast
  cases hchange with
  | joined =>
    simp only [lastSigns, welcome, reshare, Table.map_map] at hfound
    exact hinserted rfl hfound
  | left =>
    simp only [lastSigns, users_removeUser, Table.map_map] at hfound
    rw [Table.map_erase, Table.find?_erase] at hfound
    split_ifs at hfound
    exact .inr hfound
  | touched => exact hinserted rfl hfound
  | hired => exact hinserted rfl hfound
  | @estimated _ other user hold cpu memory =>
    let record : User := { user with estimatedCpu := cpu, estimatedMemory := memory }
    have hkept : (h.users.insert other record).map User.lastActivity = h.lastSigns :=
      lastSigns_insert hold rfl
    rw [← hkept]
    exact .inr hfound
  | surveyed =>
    simp only [lastSigns, spreadUsage, Table.map_map] at hfound
    exact .inr hfound
  | released => exact .inr (lastSigns_releaseWorker _ _ ▸ hfound)
  | ended => exact .inr (by simpa [lastSigns] using hfound)
  | cancelled => exact .inr (by simpa [lastSigns] using hfound)
  | _ => exact .inr hfound

/-- After some changes a user's last sign of life is none from before, or it is the one from
before. -/
theorem Changes.lastSigns_cases (hchanges : Changes may h g) {time : Nat}
    (hfound : g.lastSigns.find? name = some time) :
    h.stamp ≤ time ∨ h.lastSigns.find? name = some time := by
  have hstamp {a b : Host} (hbefore : Changes may h a) (hstep : Changes may a b) :
      h.stamp ≤ a.stamp := by
    have hle := hbefore.clock_le
    simp only [stamp]
    omega
  induction hchanges with
  | refl => exact .inr hfound
  | @tail a b hbefore hstep ih =>
    rcases hstep with hquiet | ⟨effect, heffect, hchange⟩
    · exact ih (by rwa [lastSigns, ← hquiet.users])
    · rcases hchange.lastSigns_cases hfound with rfl | hearlier
      · exact .inl (hstamp hbefore (.single heffect hchange))
      · exact ih hearlier

/-! ## Signs of sessions -/

namespace Attends

/-- More may be excused. -/
theorem mono {others : String → Nat → Prop} (ha : h.Attends excused)
    (hle : ∀ id time, excused id time → others id time) : h.Attends others where
  past := ha.past
  owners id session user hsession huser :=
    (ha.owners id session user hsession huser).imp_right (hle id _)

/-- After some changes owners are still as late as their sessions, if every session is as it was or
shows a sign of life that is excused or shared by its owner. -/
theorem step (ha : h.Attends excused) (hchanges : Changes may h g)
    (hsessions : ∀ id session, g.sessions.find? id = some session →
      h.sessions.find? id = some session ∨
        session.lastActivity = h.clock ∧ (excused id h.clock ∨
          ∀ time, g.lastSigns.find? session.username = some time → h.stamp ≤ time)) :
    g.Attends excused where
  past id session hfound := by
    refine Nat.le_trans ?_ hchanges.clock_le
    rcases hsessions id session hfound with hold | ⟨hnow, -⟩
    · exact ha.past id session hold
    · exact hnow.le
  owners id session user hfound huser := by
    have hsign := find?_lastSigns huser
    have hnow {activity : Nat} (hpast : activity ≤ h.clock) (hlate : h.stamp ≤ user.lastActivity) :
        min activity wordMax ≤ user.lastActivity := by
      simp only [stamp] at hlate
      omega
    rcases hsessions id session hfound with hold | ⟨hpresent, hexcused | hshared⟩
    · rcases hchanges.lastSigns_cases hsign with hlate | hearlier
      · exact .inl (hnow (ha.past id session hold) hlate)
      · rw [lastSigns, Table.find?_map] at hearlier
        obtain ⟨old, hold', hsame⟩ := Option.map_eq_some_iff.1 hearlier
        rw [← hsame]
        exact ha.owners id session old hold hold'
    · rw [hpresent]
      exact .inr hexcused
    · exact .inl (hnow hpresent.le (hshared _ hsign))

end Attends

/-- A change that is no sign of life of a session leaves every session as it was or takes it
out. -/
theorem Change.session_kept (hchange : Change effect h g) (hkeeps : effect.keepsSigns)
    {session : Session} (hfound : g.sessions.find? id = some session) :
    h.sessions.find? id = some session := by
  cases hchange with
  | opened => exact hkeeps.elim
  | refreshed => exact hkeeps.elim
  | checked => exact hkeeps.elim
  | closed =>
    rw [Table.find?_erase] at hfound
    split_ifs at hfound
    exact hfound
  | released =>
    simp only [releaseWorker] at hfound
    split_ifs at hfound <;> exact hfound
  | ended => simpa using hfound
  | cancelled => simpa using hfound
  | left => simpa [removeUser, reshare] using hfound
  | _ => exact hfound

/-- Changes that are no signs of life of sessions leave every session as it was or take it out. -/
theorem Changes.session_kept (hchanges : Changes Effect.keepsSigns h g) {session : Session}
    (hfound : g.sessions.find? id = some session) : h.sessions.find? id = some session := by
  induction hchanges with
  | refl => exact hfound
  | tail _ hstep ih =>
    rcases hstep with hquiet | ⟨effect, hkeeps, hchange⟩
    · exact ih (by rwa [← hquiet.sessions])
    · exact ih (hchange.session_kept hkeeps hfound)

/-- Without a sign of life of a session owners stay as late as their sessions. -/
theorem Attends.changes (ha : h.Attends excused) (hchanges : Changes Effect.keepsSigns h g) :
    g.Attends excused :=
  ha.step hchanges fun _ _ hfound => .inl (hchanges.session_kept hfound)

/-- What an action does to the sessions is nothing, or a sign of life of one of them. That is a
neglect of its owner and changes no user, or the owner's last sign of life is of the present too. -/
def SignsFor (h : Host) (id : String) (action : Action) : Prop :=
  ¬h.Neglects id action ∧ (h.perform action).sessions = h.sessions ∨
    ∃ session : Session, session.lastActivity = h.clock ∧
      (h.perform action).sessions = h.sessions.insert id session ∧
      (h.Neglects id action ∧ (h.perform action).users = h.users ∨
        ¬h.Neglects id action ∧
          ∀ time, (h.perform action).lastSigns.find? session.username = some time →
            time = h.stamp)

/-- A session that is registered shows a sign of life, unless it is refused. -/
theorem signsFor_registerSession (h : Host) (id user address : String) :
    h.SignsFor id (.registerSession id user address) := by
  cases hfound : h.sessions.find? id with
  | some session =>
    have hagain :
        h.registerSession id user address = (.ok (), h.refreshSession id user session) := by
      simp [registerSession, hfound]
    refine .inr ⟨_, ?_, by rw [perform, hagain]; rfl, .inl ⟨⟨rfl, by rw [hagain], .inl ?_⟩, ?_⟩⟩
    · rfl
    · exact Table.contains_iff.2 ⟨session, hfound⟩
    · rw [perform, hagain]
      rfl
  | none =>
    unfold SignsFor Neglects perform
    simp only [registerSession, hfound]
    split_ifs with hmany hnear
    · exact .inl ⟨by simp, rfl⟩
    · exact .inl ⟨by simp, rfl⟩
    · simp only [registerUser]
      split_ifs with hknown hfull
      · exact .inr ⟨_, rfl, rfl, .inl ⟨⟨trivial, rfl, .inr hknown⟩, rfl⟩⟩
      · exact .inl ⟨by simp, rfl⟩
      · have hnew : h.hasSession id = false := Table.contains_eq_false.2 hfound
        refine .inr ⟨_, rfl, rfl, .inr ⟨?_, fun time htime => ?_⟩⟩
        · rintro ⟨-, -, hagain | hagain⟩
          · rw [hnew] at hagain
            cases hagain
          · exact hknown hagain
        have hwelcomed : (h.welcome user).lastSigns.find? user = some time := htime
        simp only [lastSigns, welcome, reshare, Table.map_map, Table.find?_map,
          Table.find?_insert_self, Option.map_some, Option.some.injEq] at hwelcomed
        exact hwelcomed.symm

/-- A sign of life of a user is of the present. -/
theorem lastSigns_touch (h : Host) {name : String} {time : Nat}
    (hfound : (h.touch name).2.lastSigns.find? name = some time) : time = h.stamp := by
  cases hknown : h.users.find? name with
  | none =>
    have hsame : (h.touch name).2.users = h.users := by
      simp only [touch, user?, hknown]
      exact (quiet_reportUnknown _ _ (_, h)).users
    rw [lastSigns, hsame, Table.find?_map, hknown] at hfound
    cases hfound
  | some user =>
    have htouched : (h.touch name).2.users =
        h.users.insert name { user with lastActivity := h.stamp } := by
      simp [touch, user?, hknown, reportUnknown]
    rw [lastSigns, htouched, Table.find?_map, Table.find?_insert_self] at hfound
    cases hfound
    rfl

/-- A message that is checked is a sign of life of its session. -/
theorem signsFor_checkSession (h : Host) (id : String) (size : Nat) :
    h.SignsFor id (.checkSession id size) := by
  obtain ⟨hanswer, hsessions, -⟩ := h.checkSession_eq id size
  cases hfound : h.sessions.find? id with
  | none =>
    have hnothing : h.countMessage id size = (.error (.unknownSession id), h) := by
      simp [countMessage, hfound]
    rw [hnothing] at hsessions
    have hnew : h.hasSession id = false := Table.contains_eq_false.2 hfound
    refine .inl ⟨?_, hsessions⟩
    rintro ⟨-, hagain, -⟩
    rw [hnew] at hagain
    cases hagain
  | some session =>
    have hcount : h.countMessage id size = _ := countMessage_of_find? hfound
    cases hfault : (session.present h).rateFault? h.policies.session size with
    | some fault =>
      simp only [hfault] at hcount
      rw [hcount] at hanswer hsessions
      have husers : (h.checkSession id size).2.users = h.users := by
        simp only [checkSession, hcount]
        rw [(quiet_reportUnknown _ _ _).users]
        split_ifs <;> rfl
      have hrefused : (h.checkSession id size).1 ≠ .ok () := by
        rw [hanswer]
        nofun
      exact .inr ⟨_, rfl, hsessions,
        .inl ⟨⟨rfl, Table.contains_iff.2 ⟨session, hfound⟩, hrefused⟩, husers⟩⟩
    | none =>
      simp only [hfault] at hcount
      rw [hcount] at hanswer hsessions
      let counted : Host :=
        { h with sessions := h.sessions.insert id ((session.present h).count size) }
      have husers : (h.checkSession id size).2.users =
          (counted.touch (session.present h).username).2.users := by
        simp only [checkSession, hcount]
        rcases counted.touch (session.present h).username with ⟨fault | value, touched⟩ <;> rfl
      refine .inr ⟨_, rfl, hsessions, .inr ⟨?_, fun time htime => ?_⟩⟩
      · rintro ⟨-, -, hrefused⟩
        exact hrefused hanswer
      · rw [perform, lastSigns, husers] at htime
        exact counted.lastSigns_touch htime

/-! ## Whole runs -/

/-- A sign of life of a session is neglected, or owners are as late as their sessions after it as
before. -/
theorem Attends.signs (ha : h.Attends excused) {action : Action} (hserved : h.served ≤ h.clock)
    (hsigns : h.SignsFor id action) : (h.perform action).Attends fun other time =>
      excused other time ∨ h.Neglects other action ∧ time = h.clock := by
  have hexcused : h.Attends fun other time =>
      excused other time ∨ h.Neglects other action ∧ time = h.clock := ha.mono fun _ _ => .inl
  refine hexcused.step (h.perform_changes action hserved) fun other session hfound => ?_
  rcases hsigns with ⟨-, hkept⟩ | ⟨sign, hnow, hsessions, howner⟩
  · exact .inl (by rwa [← hkept])
  · rw [hsessions, Table.find?_insert] at hfound
    split_ifs at hfound with hother
    · cases hfound
      refine .inr ⟨hnow, ?_⟩
      rcases howner with ⟨hneglects, -⟩ | ⟨-, hshared⟩
      · exact .inl (.inr ⟨hother ▸ hneglects, rfl⟩)
      · exact .inr fun time htime => (hshared time htime).ge
    · exact .inl hfound

/-- What an action without a sign of life of a session causes is none. -/
theorem keepsSigns_of_causes {action : Action} (hkeeps : action.keepsSigns = true)
    (hcauses : action.causes effect) : effect.keepsSigns := by
  cases effect with
  | opened session =>
    obtain ⟨user, address, rfl⟩ := hcauses
    cases hkeeps
  | refreshed session =>
    obtain ⟨user, address, rfl⟩ := hcauses
    cases hkeeps
  | checked session =>
    obtain ⟨size, rfl⟩ := hcauses
    cases hkeeps
  | _ => trivial

/-- After an action owners are as late as their sessions, save for those who were excused before or
neglected by it. -/
theorem Attends.perform (ha : h.Attends excused) (action : Action)
    (hserved : h.served ≤ h.clock) : (h.perform action).Attends fun id time =>
      excused id time ∨ h.Neglects id action ∧ time = h.clock := by
  by_cases hkeeps : action.keepsSigns = true
  · have hchanges := (h.perform_changes action hserved).mono fun _ => keepsSigns_of_causes hkeeps
    exact (ha.changes hchanges).mono fun _ _ => .inl
  · cases action with
    | registerSession session user address =>
      exact ha.signs hserved (h.signsFor_registerSession session user address)
    | checkSession session size => exact ha.signs hserved (h.signsFor_checkSession session size)
    | _ => exact absurd rfl hkeeps

/-- A host that was just built has no sessions. -/
theorem IsBuilt.attends {policies : Policies} {sampler : Sampler} {timers : Bool} {start : Host}
    (hbuilt : IsBuilt policies sampler timers start) : start.Attends excused := by
  have hnone : start.sessions = .empty := hbuilt.quiet.sessions
  constructor <;> simp [hnone]

/-- After some actions owners are as late as their sessions, save for those who were neglected on
the way. -/
theorem IsBuilt.attends_performAll {policies : Policies} {sampler : Sampler} {timers : Bool}
    {start : Host} (hbuilt : IsBuilt policies sampler timers start) (actions : List Action) :
    (start.performAll actions).Attends (start.NeglectedAt actions) := by
  induction actions using List.reverseRecOn with
  | nil => exact hbuilt.attends
  | append_singleton actions action ih =>
    have hserved := (hbuilt.isReachable actions).served_le
    rw [performAll_append]
    refine (ih.perform action hserved).mono ?_
    rintro id time (⟨earlier, before, later, rfl, hneglects, htime⟩ | ⟨hneglects, htime⟩)
    · exact ⟨earlier, before, later ++ [action], by simp, hneglects, htime⟩
    · exact ⟨actions, action, [], rfl, hneglects, htime⟩

/-- A neglect of an owner is a sign of life of the session that changes no user. -/
theorem Neglects.spec {action : Action} (hneglects : h.Neglects id action) :
    (h.perform action).users = h.users ∧
      ∃ session, (h.perform action).sessions.find? id = some session ∧
        session.lastActivity = h.clock := by
  have hsigns : h.SignsFor id action := by
    cases action with
    | registerSession session user address =>
      obtain ⟨rfl, -⟩ := hneglects
      exact h.signsFor_registerSession session user address
    | checkSession session size =>
      obtain ⟨rfl, -⟩ := hneglects
      exact h.signsFor_checkSession session size
    | _ => exact hneglects.elim
  rcases hsigns with ⟨hnone, -⟩ | ⟨session, hnow, hsessions, ⟨-, husers⟩ | ⟨hnone, -⟩⟩
  · exact absurd hneglects hnone
  · exact ⟨husers, session, by rw [hsessions, Table.find?_insert_self], hnow⟩
  · exact absurd hneglects hnone

/-- A user whose last sign of life is as late as that of an active session is not away. -/
theorem not_isAway {session : Session} {user : User}
    (huser : h.users.find? name = some user) (hpast : session.lastActivity ≤ h.clock)
    (hlate : min session.lastActivity wordMax ≤ user.lastActivity)
    (hactive : h.now.since (.ofMillis session.lastActivity) ≤ h.policies.system.maxInactiveTime) :
    ¬h.IsAway name := by
  rintro ⟨found, hfound, hidle⟩
  rw [huser] at hfound
  cases hfound
  have hidle' : h.policies.system.maxInactiveTime.nanos <
      Span.nanosPerMilli * (h.stamp - user.lastActivity) := hidle
  have hactive' : Span.nanosPerMilli * h.clock - Span.nanosPerMilli * session.lastActivity ≤
      h.policies.system.maxInactiveTime.nanos := hactive
  simp only [stamp, Span.nanosPerMilli] at hidle' hactive'
  omega

/-- Owners of sessions show their last sign of life no earlier than their sessions, save for
sessions whose last sign of life neglected its owner; so it is after every history and while tasks
run after it. A monitor cycle flags the owner of a session that was active in time only after such a
neglect. Every neglect changes no user while the session's last sign of life becomes the present. -/
theorem session_signs_reach_owner {policies : Policies} {sampler : Sampler} {timers : Bool}
    {start : Host} (hbuilt : IsBuilt policies sampler timers start) (actions : List Action) :
    let h := start.performAll actions
    (∀ k, Changes Effect.keepsSigns h k →
      (∀ id session user, k.sessions.find? id = some session →
        k.users.find? session.username = some user →
        min session.lastActivity wordMax ≤ user.lastActivity ∨
          start.NeglectedAt actions id session.lastActivity) ∧
      ∀ sample name, k.sampler.measure = .ok sample → name ∈ k.monitorCycle.2.inactive →
        ∀ id session, k.sessions.find? id = some session → session.username = name →
          k.now.since (.ofMillis session.lastActivity) ≤ k.policies.system.maxInactiveTime →
          start.NeglectedAt actions id session.lastActivity) ∧
    ∀ id action, h.Neglects id action →
      (h.perform action).users = h.users ∧
        ∃ session, (h.perform action).sessions.find? id = some session ∧
          session.lastActivity = h.clock := by
  intro h
  refine ⟨fun k hchanges => ?_, fun id action => Neglects.spec⟩
  have ha : k.Attends (start.NeglectedAt actions) :=
    (hbuilt.attends_performAll actions).changes hchanges
  refine ⟨ha.owners, fun sample name hsample hflagged id session hfound howner hactive => ?_⟩
  subst howner
  have haway := ((surveys_monitorCycle hsample).flagged session.username).1 hflagged
  obtain ⟨user, huser⟩ : ∃ user, k.users.find? session.username = some user :=
    haway.imp fun _ => And.left
  rcases ha.owners id session user hfound huser with hlate | hneglected
  · exact absurd haway (not_isAway huser (ha.past id session hfound) hlate hactive)
  · exact hneglected

/-- A session connects again after a long silence, and its owner is flagged all the same: the owner
was neglected. -/
theorem session_signs_reach_owner_of_reconnect :
    ∃ start, IsBuilt {} ⟨⟨100, 0, 2048, 0⟩, none⟩ true start ∧
      start.NeglectedAt
        [.registerSession "desk" "ana" "10.0.0.1", .jump 1900000,
          .registerSession "desk" "ana" "10.0.0.1"] "desk" 1900000 := by
  refine ⟨_, .of_build rfl, ?_⟩
  have hbuilt : IsBuilt {} ⟨⟨100, 0, 2048, 0⟩, none⟩ true _ := .of_build rfl
  obtain ⟨hall, -⟩ := session_signs_reach_owner hbuilt
    [.registerSession "desk" "ana" "10.0.0.1", .jump 1900000,
      .registerSession "desk" "ana" "10.0.0.1"]
  obtain ⟨-, hflagged⟩ := hall _ (.refl _)
  exact hflagged ⟨100, 0, 2048, 0⟩ "ana" rfl (by decide) "desk" _ rfl rfl (by decide)

/-- After a long silence a session connects again, another session of the user is registered, or a
message is refused. Each time the session is active, its owner is not, and a monitor cycle flags
the owner. -/
theorem neglected_owner_is_flagged :
    ∃ start, IsBuilt {} ⟨⟨100, 0, 2048, 0⟩, none⟩ true start ∧
      ∀ sign ∈ [Action.registerSession "desk" "ana" "10.0.0.1",
          .registerSession "phone" "ana" "10.0.0.2", .checkSession "desk" 20000],
        let actions := [.registerSession "desk" "ana" "10.0.0.1", .jump 1900000, sign]
        let h := start.performAll actions
        (∀ action ∈ actions, action.throughSessions = true) ∧
          h.monitorCycle.2.inactive = ["ana"] ∧
          ∃ id session user, h.sessions.find? id = some session ∧ session.username = "ana" ∧
            h.users.find? "ana" = some user ∧ session.lastActivity = 1900000 ∧
            user.lastActivity = 0 := by
  refine ⟨_, .of_build rfl, ?_⟩
  intro sign hsign
  simp only [List.mem_cons, List.not_mem_nil, or_false] at hsign
  rcases hsign with rfl | rfl | rfl
  · exact ⟨by decide, rfl, "desk", _, _, rfl, rfl, rfl, rfl, rfl⟩
  · exact ⟨by decide, rfl, "phone", _, _, rfl, rfl, rfl, rfl, rfl⟩
  · exact ⟨by decide, rfl, "desk", _, _, rfl, rfl, rfl, rfl, rfl⟩

end Host

end Steward
