import Steward.Proofs.Chronicle
import Steward.Proofs.IdleSweeps

/-!
# What removals tell

A removal takes the session out first and then retires an owner who has no other one. Where the
owner was unregistered past the session, the removal fails after the session is gone. So a failure
tells that nothing was removed only if the session was not known, and a sweep leaves some of the
sessions out that it removed: for each owner who is not registered and all of whose sessions are
idle, the one that comes last.
-/

namespace Steward.Host

/-- Whether a session is the only one that its owner, who is not registered, has besides some
others. -/
def IsStranded (h : Host) (others : List String) (id : String) : Prop :=
  ∃ session, h.sessions.find? id = some session ∧ h.isRegistered session.username = false ∧
    ∀ other twin, h.sessions.find? other = some twin → twin.username = session.username →
      other = id ∨ other ∈ others

variable {h : Host} {id : String}

/-! ## One session -/

/-- A session is removed, whatever is answered. -/
theorem sessions_removeSession (h : Host) (id : String) :
    (h.removeSession id).2.sessions = h.sessions.erase id := by
  cases hfound : h.sessions.find? id with
  | none =>
    rw [Table.erase_of_find?_eq_none hfound]
    simp [removeSession, hfound]
  | some session =>
    obtain ⟨event, hremove⟩ := removeSession_eq hfound
    obtain ⟨cancelled, journal, hdrop, -⟩ := h.dropSession_spec id session.username
    have hdropped : (h.dropSession id session.username).sessions = h.sessions.erase id := by
      rw [hdrop]
    rw [hremove]
    dsimp only
    split_ifs
    · exact (sessions_retireUser _ _).trans hdropped
    · exact hdropped

/-- After a removal the other sessions are there. -/
theorem find?_removeSession (h : Host) (id other : String) :
    (h.removeSession id).2.sessions.find? other =
      if other = id then none else h.sessions.find? other := by
  rw [sessions_removeSession, Table.find?_erase]

/-- Who is not registered cannot be retired. -/
theorem retireUser_fst (h : Host) (name : String) :
    (h.retireUser name).1 =
      if h.isRegistered name = true then .ok () else .error (.unknownUser name) := by
  obtain ⟨husers, -⟩ := h.stopIfRunning_eq name .userUnregistered
  cases hknown : h.users.find? name with
  | none =>
    have hmissing : (h.stopIfRunning name .userUnregistered).2.user? name =
        .error (.unknownUser name) := user?_eq_error.2 ⟨by rw [husers, hknown], rfl⟩
    simp [retireUser, unregisterUser, hmissing, reportUnknown, isRegistered, Table.contains, hknown]
  | some user =>
    rw [retireUser, unregisterUser_of_find? (husers ▸ hknown)]
    simp [isRegistered, Table.contains, hknown]

/-- Retiring a user leaves the others registered or not. -/
theorem isRegistered_retireUser_of_ne {name other : String} (hother : other ≠ name) :
    (h.retireUser name).2.isRegistered other = h.isRegistered other := by
  have hkept : (h.retireUser name).2.roster.find? other = h.roster.find? other := by
    cases hknown : h.users.contains name with
    | true =>
      rw [(retireUser_of_contains hknown).2.1, Table.find?_erase_of_ne _ hother]
    | false =>
      obtain ⟨husers, -⟩ := h.stopIfRunning_eq name .userUnregistered
      have hmissing : (h.stopIfRunning name .userUnregistered).2.user? name =
          .error (.unknownUser name) :=
        user?_eq_error.2 ⟨by rw [husers, Table.contains_eq_false.1 hknown], rfl⟩
      rw [retireUser, unregisterUser, hmissing, roster_eq,
        (quiet_reportUnknown _ _ _).users, husers, roster_eq]
  have hsame : (h.retireUser name).2.roster.contains other = h.roster.contains other := by
    rw [Table.contains, hkept, Table.contains]
  rwa [contains_roster, contains_roster] at hsame

/-- A removal takes its owner out with the last session only. -/
theorem isRegistered_removeSession {other : String} {twin : Session} (hother : other ≠ id)
    (htwin : h.sessions.find? other = some twin) :
    (h.removeSession id).2.isRegistered twin.username = h.isRegistered twin.username := by
  cases hfound : h.sessions.find? id with
  | none => simp [removeSession, hfound]
  | some session =>
    obtain ⟨event, hremove⟩ := removeSession_eq hfound
    obtain ⟨cancelled, journal, hdrop, -⟩ := h.dropSession_spec id session.username
    have hsame : (h.dropSession id session.username).isRegistered = h.isRegistered := by
      rw [hdrop]
      rfl
    rw [hremove]
    dsimp only
    split_ifs with hlast
    · have hname : twin.username ≠ session.username := by
        intro hname
        refine sessionCount_eq_zero.1 hlast ⟨other, twin, ?_, hname⟩
        rw [hdrop]
        exact (Table.find?_erase_of_ne _ hother).trans htwin
      exact (isRegistered_retireUser_of_ne hname).trans (congrFun hsame _)
    · exact congrFun hsame _

section Known

variable {session : Session} (hfound : h.sessions.find? id = some session)

include hfound

/-- A session is stranded by itself if its owner is not registered and owns no other one. -/
theorem isStranded_iff :
    h.IsStranded [] id ↔ h.isRegistered session.username = false ∧
      ¬(h.dropSession id session.username).Owns session.username := by
  obtain ⟨cancelled, journal, hdrop, -⟩ := h.dropSession_spec id session.username
  have howns : (h.dropSession id session.username).Owns session.username ↔
      ∃ other twin, h.sessions.find? other = some twin ∧ twin.username = session.username ∧
        other ≠ id := by
    simp only [Owns, hdrop, Table.find?_erase]
    constructor
    · rintro ⟨other, twin, htwin, hname⟩
      split_ifs at htwin with hother
      exact ⟨other, twin, htwin, hname, hother⟩
    · rintro ⟨other, twin, htwin, hname, hother⟩
      exact ⟨other, twin, by rw [if_neg hother, htwin], hname⟩
  rw [howns, IsStranded]
  simp only [hfound, Option.some.injEq, exists_eq_left', List.not_mem_nil, or_false, not_exists,
    not_and, not_not]

/-- The removal of a known session succeeds, unless it is stranded: then its owner is not
found. -/
theorem removeSession_fst :
    (¬h.IsStranded [] id → (h.removeSession id).1 = .ok ()) ∧
      (h.IsStranded [] id → (h.removeSession id).1 = .error (.unknownUser session.username)) := by
  obtain ⟨event, hremove⟩ := removeSession_eq hfound
  obtain ⟨cancelled, journal, hdrop, -⟩ := h.dropSession_spec id session.username
  have hsame : (h.dropSession id session.username).isRegistered session.username =
      h.isRegistered session.username := by
    rw [hdrop]
    rfl
  rw [isStranded_iff hfound, hremove]
  dsimp only
  by_cases hanother : (h.dropSession id session.username).Owns session.username
  · rw [if_neg fun hzero => sessionCount_eq_zero.1 hzero hanother]
    exact ⟨fun _ => rfl, fun hstranded => absurd hanother hstranded.2⟩
  · rw [if_pos (sessionCount_eq_zero.2 hanother), retireUser_fst, hsame]
    cases hknown : h.isRegistered session.username with
    | true => simp
    | false => simp [hanother]

end Known

/-- Removing a session that is not known removes nothing. -/
theorem removeSession_fst_of_unknown (hfound : h.sessions.find? id = none) :
    (h.removeSession id).1 = .error (.unknownSession id) := by
  simp [removeSession, hfound]

/-- A removal on request takes the session out, and answers as the removal does. -/
theorem unregisterSession_spec (h : Host) (id : String) :
    (h.unregisterSession id).1 = (h.removeSession id).1 ∧
      (h.unregisterSession id).2.sessions = h.sessions.erase id := by
  refine ⟨?_, (quiet_reportUnknown _ _ _).sessions.trans (h.sessions_removeSession id)⟩
  unfold unregisterSession
  rcases h.removeSession id with ⟨fault | _, left⟩ <;> rfl

/-- A removal on request fails for a session that is not known, and then nothing is removed, and for
a stranded one, which it removes. -/
theorem unregisterSession_eq_error_iff {fault : Fault} :
    (h.unregisterSession id).1 = .error fault ↔
      (h.hasSession id = false ∧ (h.unregisterSession id).2.sessions = h.sessions ∧
          fault = .unknownSession id) ∨
        ∃ session, h.sessions.find? id = some session ∧ h.IsStranded [] id ∧
          (h.unregisterSession id).2.hasSession id = false ∧
          fault = .unknownUser session.username := by
  obtain ⟨hanswer, hsessions⟩ := h.unregisterSession_spec id
  have hgone : (h.unregisterSession id).2.hasSession id = false := by
    rw [hasSession, hsessions, Table.contains_eq_false, Table.find?_erase_self]
  rw [hsessions, hanswer]
  cases hfound : h.sessions.find? id with
  | none =>
    have hmissing : h.hasSession id = false := Table.contains_eq_false.2 hfound
    rw [removeSession_fst_of_unknown hfound, hmissing, Table.erase_of_find?_eq_none hfound,
      Except.error.injEq]
    constructor
    · rintro rfl
      exact .inl ⟨rfl, rfl, rfl⟩
    · rintro (⟨-, -, rfl⟩ | ⟨session, hsession, -⟩)
      · rfl
      · cases hsession
  | some session =>
    have hknown : h.hasSession id = true := Table.contains_iff.2 ⟨session, hfound⟩
    obtain ⟨hremoved, hfailed⟩ := removeSession_fst hfound
    by_cases hstranded : h.IsStranded [] id
    · rw [hfailed hstranded, Except.error.injEq]
      constructor
      · rintro rfl
        exact .inr ⟨session, rfl, hstranded, hgone, rfl⟩
      · rintro (⟨hmissing, -⟩ | ⟨other, hother, -, -, rfl⟩)
        · rw [hknown] at hmissing
          cases hmissing
        · cases hother
          rfl
    · simp [hremoved hstranded, hknown, hstranded]

/-! ## Some sessions -/

/-- All of some sessions are removed, whatever is answered. -/
theorem find?_removeSessions (h : Host) (ids : List String) (id : String) :
    (h.removeSessions ids).2.sessions.find? id =
      if id ∈ ids then none else h.sessions.find? id := by
  induction ids generalizing h with
  | nil => simp [removeSessions]
  | cons first rest ih =>
    have hstep : (h.removeSessions (first :: rest)).2 =
        ((h.removeSession first).2.removeSessions rest).2 := by
      rw [removeSessions]
      rcases h.removeSession first with ⟨fault | _, left⟩ <;> rfl
    rw [hstep, ih, find?_removeSession]
    by_cases hfirst : id = first
    · simp [hfirst]
    · simp [hfirst]

/-- What is told of some removals leaves out those that failed. -/
theorem told_cons (h : Host) (first : String) (rest : List String) :
    (h.removeSessions (first :: rest)).1 =
      match (h.removeSession first).1 with
      | .ok () => first :: ((h.removeSession first).2.removeSessions rest).1
      | .error _ => ((h.removeSession first).2.removeSessions rest).1 := by
  rw [removeSessions]
  rcases h.removeSession first with ⟨fault | _, left⟩ <;> rfl

/-- Removals are told in their order, each at most once. -/
theorem told_sublist (h : Host) (ids : List String) : (h.removeSessions ids).1.Sublist ids := by
  induction ids generalizing h with
  | nil => exact .refl _
  | cons first rest ih =>
    rw [told_cons]
    split
    · exact (ih _).cons_cons first
    · exact (ih _).cons first

/-- After a removal a session is stranded besides some others if it was before, with the session
that was removed among those. -/
theorem isStranded_removeSession {first : String} (hfirst : id ≠ first) (others : List String) :
    (h.removeSession first).2.IsStranded others id ↔ h.IsStranded (first :: others) id := by
  unfold IsStranded
  rw [find?_removeSession, if_neg hfirst]
  refine exists_congr fun session => and_congr_right fun hfound => ?_
  rw [isRegistered_removeSession hfirst hfound]
  refine and_congr_right fun _ => forall_congr' fun other => forall_congr' fun twin => ?_
  rw [find?_removeSession, List.mem_cons]
  by_cases hother : other = first
  · simp [hother]
  · simp [hother]

/-- Of known sessions that are removed in some order, those are told of that are not stranded when
their turn comes. -/
theorem mem_told {before after : List String} (hnodup : (before ++ id :: after).Nodup)
    (hknown : h.hasSession id = true) :
    id ∈ (h.removeSessions (before ++ id :: after)).1 ↔ ¬h.IsStranded before id := by
  induction before generalizing h with
  | nil =>
    obtain ⟨session, hfound⟩ := Table.contains_iff.1 hknown
    have hnew : id ∉ ((h.removeSession id).2.removeSessions after).1 := fun hmem =>
      (List.nodup_cons.1 hnodup).1 ((told_sublist _ _).subset hmem)
    rw [List.nil_append, told_cons]
    by_cases hstranded : h.IsStranded [] id
    · simp [(removeSession_fst hfound).2 hstranded, hstranded, hnew]
    · simp [(removeSession_fst hfound).1 hstranded, hstranded]
  | cons first rest ih =>
    obtain ⟨hfirst, hrest⟩ := List.nodup_cons.1 hnodup
    have hid : id ≠ first := by
      rintro rfl
      exact hfirst (by simp)
    have hstill : (h.removeSession first).2.hasSession id = true := by
      rw [hasSession, Table.contains, find?_removeSession, if_neg hid]
      exact hknown
    rw [← isStranded_removeSession hid, ← ih hrest hstill, List.cons_append, told_cons]
    split
    · simp [hid]
    · rfl

/-! ## What is told of a sweep -/

/-- A sweep tells of the idle sessions whose removal succeeded. -/
theorem sweep_told (h : Host) :
    h.sweep.1 = (h.removeSessions h.idleSessions).1 ∧
      h.sweep.2.sessions = (h.removeSessions h.idleSessions).2.sessions := by
  unfold sweep
  rcases h.removeSessions h.idleSessions with ⟨_ | ⟨first, rest⟩, left⟩ <;> exact ⟨rfl, rfl⟩

/-- Of several items with a property one comes last. -/
theorem exists_last {α : Type} {items : List α} {p : α → Bool} (hsome : ∃ item ∈ items, p item) :
    ∃ before item after, items = before ++ item :: after ∧ p item ∧ ∀ later ∈ after, ¬p later := by
  obtain ⟨item, hmem, hitem⟩ := hsome
  obtain ⟨last, hlast⟩ := Option.isSome_iff_exists.1
    (List.find?_isSome.2 ⟨item, List.mem_reverse.2 hmem, hitem⟩)
  obtain ⟨hp, after, before, hsplit, hafter⟩ := List.find?_eq_some_iff_append.1 hlast
  refine ⟨before.reverse, last, after.reverse, ?_, hp, fun later hlater => ?_⟩
  · simpa using congrArg List.reverse hsplit
  · simpa using hafter later (List.mem_reverse.1 hlater)

/-- Whoever is not registered and has only sessions that are removed has one that is stranded when
its turn comes. -/
theorem exists_stranded {order : List String} {name : String} (howns : h.Owns name)
    (hmissing : h.isRegistered name = false)
    (hall : ∀ id session, h.sessions.find? id = some session → session.username = name →
      id ∈ order) :
    ∃ before id after, order = before ++ id :: after ∧ h.IsStranded before id := by
  obtain ⟨id, session, hfound, hname⟩ := howns
  obtain ⟨before, last, after, hsplit, hlast, hafter⟩ := exists_last
    (p := fun id => (h.sessions.find? id).any fun session => session.username = name)
    ⟨id, hall id session hfound hname, by simp [hfound, hname]⟩
  cases hfinal : h.sessions.find? last with
  | none => simp [hfinal] at hlast
  | some final =>
    have howner : final.username = name := by simpa [hfinal] using hlast
    refine ⟨before, last, after, hsplit, final, hfinal, by rwa [howner], ?_⟩
    intro other twin htwin hsame
    have hmem := hall other twin htwin (hsame.trans howner)
    rw [hsplit, List.mem_append, List.mem_cons] at hmem
    rcases hmem with hmem | hmem | hmem
    · exact .inr hmem
    · exact .inl hmem
    · exact absurd (by simp [htwin, hsame, howner]) (hafter other hmem)

/-- Sessions that were there and are gone after the idle ones were removed in some order are the
idle ones. -/
theorem removed_iff_idle {order : List String} (hperm : order.Perm h.idleSessions) (id : String) :
    (h.hasSession id = true ∧ (h.removeSessions order).2.hasSession id = false) ↔
      id ∈ h.idleSessions := by
  simp only [hasSession, Table.contains, find?_removeSessions, hperm.mem_iff]
  constructor
  · rintro ⟨hthere, hgone⟩
    by_contra hactive
    rw [if_neg hactive, hthere] at hgone
    cases hgone
  · intro hidle
    exact ⟨hasSession_of_idle id hidle, by rw [if_pos hidle, Option.isSome_none]⟩

section Order

variable {order : List String} (hperm : order.Perm h.idleSessions)

include hperm

/-- Of the idle sessions, removed in some order, those are told of that are not stranded when their
turn comes. -/
theorem mem_told_of_idle {before after : List String} (hsplit : order = before ++ id :: after) :
    id ∈ (h.removeSessions order).1 ↔ ¬h.IsStranded before id := by
  have hnodup : order.Nodup := hperm.nodup_iff.2 h.nodup_idleSessions
  have hknown : h.hasSession id = true :=
    hasSession_of_idle id (hperm.mem_iff.1 (by simp [hsplit]))
  rw [hsplit]
  exact mem_told (hsplit ▸ hnodup) hknown

/-- All of the idle sessions are told of exactly if every owner who is not registered also has a
session that is not idle. -/
theorem told_all_iff :
    (∀ id, id ∈ (h.removeSessions order).1 ↔ id ∈ order) ↔
      ∀ name, h.Owns name → h.isRegistered name = false →
        ∃ id session, h.sessions.find? id = some session ∧ session.username = name ∧
          ¬h.IsIdle session := by
  constructor
  · intro hall name howns hmissing
    by_contra hnone
    push Not at hnone
    have hgoes : ∀ id session, h.sessions.find? id = some session → session.username = name →
        id ∈ order := fun id session hfound hname =>
      hperm.mem_iff.2 (mem_idleSessions.2 ⟨session, hfound, hnone id session hfound hname⟩)
    obtain ⟨before, id, after, hsplit, hstranded⟩ := exists_stranded howns hmissing hgoes
    exact (mem_told_of_idle hperm hsplit).1 ((hall id).2 (by simp [hsplit])) hstranded
  · intro hactive id
    refine ⟨fun hmem => (h.told_sublist order).subset hmem, fun hmem => ?_⟩
    obtain ⟨before, after, hsplit⟩ := List.append_of_mem hmem
    rw [mem_told_of_idle hperm hsplit]
    -- The owner of a stranded session would own another one, which is not idle and so stays.
    rintro ⟨session, hfound, hmissing, hothers⟩
    obtain ⟨other, twin, htwin, hname, hawake⟩ :=
      hactive session.username ⟨id, session, hfound, rfl⟩ hmissing
    have hother : other ∈ order := by
      rcases hothers other twin htwin hname with rfl | hbefore
      · exact hmem
      · rw [hsplit]
        exact List.mem_append_left _ hbefore
    obtain ⟨late, hlate, hislate⟩ := mem_idleSessions.1 (hperm.mem_iff.1 hother)
    rw [htwin] at hlate
    cases hlate
    exact hawake hislate

end Order

/-- A removal takes the session out whatever it answers, and no other one. It fails for a session
that is not known, and then nothing is removed, and for the only session of an owner who is not
registered, which it removes all the same. A sweep removes the idle sessions, in whichever order it
takes them, and tells of them in that order, each at most once, but leaves out every session with
which an owner who is not registered loses the last one. So it tells of all that it removed exactly
where every such owner also has a session that is not idle. -/
theorem removals_told (h : Host) :
    (∀ id,
      (h.unregisterSession id).2.sessions = h.sessions.erase id ∧
        ∀ fault, (h.unregisterSession id).1 = .error fault ↔
          (h.hasSession id = false ∧ (h.unregisterSession id).2.sessions = h.sessions ∧
              fault = .unknownSession id) ∨
            ∃ session, h.sessions.find? id = some session ∧ h.IsStranded [] id ∧
              (h.unregisterSession id).2.hasSession id = false ∧
              fault = .unknownUser session.username) ∧
      (∀ order, order.Perm h.idleSessions →
        let told := (h.removeSessions order).1
        let g := (h.removeSessions order).2
        (∀ id, g.sessions.find? id = if id ∈ h.idleSessions then none else h.sessions.find? id) ∧
          told.Sublist order ∧
          (∀ before id after, order = before ++ id :: after →
            (id ∈ told ↔ ¬h.IsStranded before id)) ∧
          ((∀ id, id ∈ told ↔ h.hasSession id = true ∧ g.hasSession id = false) ↔
            ∀ name, h.Owns name → h.isRegistered name = false →
              ∃ id session, h.sessions.find? id = some session ∧ session.username = name ∧
                ¬h.IsIdle session)) ∧
      h.sweep.1 = (h.removeSessions h.idleSessions).1 ∧
      h.sweep.2.sessions = (h.removeSessions h.idleSessions).2.sessions := by
  refine ⟨fun id => ⟨(h.unregisterSession_spec id).2, fun _ => unregisterSession_eq_error_iff⟩,
    fun order hperm => ?_, h.sweep_told⟩
  refine ⟨fun id => ?_, h.told_sublist order, fun _ _ _ => mem_told_of_idle hperm, ?_⟩
  · rw [find?_removeSessions]
    simp only [hperm.mem_iff]
  · simp only [removed_iff_idle hperm, ← hperm.mem_iff]
    exact told_all_iff hperm

/-- Of two idle sessions of a user who was taken out past them, a sweep tells of the one that it
removes first. -/
theorem removals_told_of_departed :
    ∃ start, IsBuilt {} ⟨⟨100, 0, 2048, 0⟩, none⟩ true start ∧
      let h := start.performAll
        [.registerSession "desk" "ana" "10.0.0.1", .registerSession "phone" "ana" "10.0.0.2",
          .unregisterUser "ana", .jump 1900000]
      ["phone", "desk"].Perm h.idleSessions ∧
        "phone" ∈ (h.removeSessions ["phone", "desk"]).1 ∧
        "desk" ∉ (h.removeSessions ["phone", "desk"]).1 ∧
        (h.removeSessions ["phone", "desk"]).2.sessions.find? "desk" = none := by
  refine ⟨_, .of_build rfl, ?_⟩
  intro h
  have hperm : ["phone", "desk"].Perm h.idleSessions := .swap "desk" "phone" []
  obtain ⟨-, hsweeps, -⟩ := removals_told h
  obtain ⟨hgone, -, htold, -⟩ := hsweeps ["phone", "desk"] hperm
  refine ⟨hperm, ?_, ?_, ?_⟩
  · refine (htold [] "phone" ["desk"] rfl).2 ?_
    rintro ⟨session, hfound, -, hothers⟩
    cases hfound
    simpa using hothers "desk" _ rfl rfl
  · refine fun hmem => (htold ["phone"] "desk" [] rfl).1 hmem ⟨_, rfl, rfl, ?_⟩
    intro other twin htwin _
    have hlisted : other ∈ ["desk", "phone"] :=
      Table.mem_names.2 (Table.contains_iff.2 ⟨twin, htwin⟩)
    simpa using hlisted
  · exact (hgone "desk").trans (if_pos (hperm.mem_iff.1 (by simp)))

/-- A user is taken out past the only session. Its removal fails and takes it out all the same; and
a sweep tells of no removal, although it removes the session. -/
theorem removal_may_deny_itself :
    ∃ start, IsBuilt {} ⟨⟨100, 0, 2048, 0⟩, none⟩ true start ∧
      let h := start.performAll
        [.registerSession "desk" "ana" "10.0.0.1", .unregisterUser "ana", .jump 1900000]
      h.hasSession "desk" = true ∧
        (h.unregisterSession "desk").1 = .error (.unknownUser "ana") ∧
        (h.unregisterSession "desk").2.hasSession "desk" = false ∧
        h.sweep.1 = [] ∧ h.sweep.2.hasSession "desk" = false :=
  ⟨_, .of_build rfl, rfl, rfl, rfl, rfl, rfl⟩

end Steward.Host
