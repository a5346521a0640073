import Steward.Proofs.Deeds

/-!
# What users do to others

Nothing. What a user does on the own account is a row of small changes about that user, and none of
them reaches the slice of another, a root scope, or what waits besides the deadlines. So the host
looks to all others as it did before.
-/

namespace Steward

/-- Whether an effect is what a user does on the own account, where the user owns some sessions. -/
def Effect.IsOf (user : String) (sessions : Table Session) : Effect → Prop
  | .touched name | .estimated name | .hired name | .launched name | .counted name
  | .ended name => name = user
  | .released permit => permit.user = user
  | .checked id => ∃ session, sessions.find? id = some session ∧ session.username = user
  | _ => False

namespace Host

variable {name user : String} {h g k : Host}

/-- What a user does on the own account changes the host on that account only. -/
theorem changes_act {deed : Deed} (hown : h.IsOwn user deed) :
    Changes (Effect.IsOf user h.sessions) h (h.act user deed).2 := by
  have htouched : Effect.IsOf user h.sessions (.touched user) := rfl
  have hended : Effect.IsOf user h.sessions (.ended user) := rfl
  cases deed with
  | checkSession id size =>
    obtain ⟨session, hfound, howner⟩ := hown
    refine changes_checkSession ⟨session, hfound, howner⟩ ?_ size
    rintro other hother
    rw [hfound] at hother
    cases hother
    exact howner
  | start program => exact changes_start htouched (rfl : user = user) program
  | check statement => exact changes_check htouched (rfl : user = user) hended statement
  | stop => exact changes_stop hended
  | executionReport => exact .refl h
  | userAllowance => exact changes_userAllowance user
  | touch => exact changes_touch htouched
  | recordUsage cpu memory => exact changes_recordUsage rfl
  | checkUsage => exact changes_checkUsage user
  | acquireWorker => exact changes_acquireWorker rfl
  | releaseWorker place =>
    simp only [act]
    cases hheld : (h.permitsOf user)[place]? with
    | none => exact .refl h
    | some permit =>
      have howner : permit.user = user :=
        of_decide_eq_true (List.mem_filter.1 (List.mem_of_getElem? hheld)).2
      have hreleased : Effect.IsOf user h.sessions (.released permit) := howner
      exact changes_releaseWorker hreleased

/-- What a user does on the own account changes what waits by a watched deadline at most. -/
theorem tracked_act (h : Host) (user : String) (deed : Deed) :
    (h.act user deed).2.tasks.filter Task.isTracked = h.tasks.filter Task.isTracked := by
  cases deed with
  | checkSession id size => exact congrArg _ (h.entry_checkSession id size).tasks
  | start program =>
    change (h.start user program).2.tasks.filter Task.isTracked = _
    rcases h.start_cases user program with hnone | ⟨owner, run, -, -, -, -, hstarted⟩
    · rw [hnone.tasks]
    · rw [hstarted, tracked_watchDeadline]
      rfl
  | check statement =>
    change (h.check user statement).2.tasks.filter Task.isTracked = _
    rcases h.check_cases user statement with hentry | ⟨run, -, -, hcounted⟩
    · rw [hentry.tasks]
    · rw [hcounted, (entry_touch _ user).tasks]
  | stop => exact congrArg _ (h.entry_stop user).tasks
  | executionReport => rfl
  | userAllowance => exact congrArg _ (h.entry_userAllowance user).tasks
  | touch => exact congrArg _ (h.entry_touch user).tasks
  | recordUsage cpu memory => exact congrArg _ (h.entry_recordUsage user cpu memory).tasks
  | checkUsage => exact congrArg _ (h.entry_checkUsage user).tasks
  | acquireWorker => exact congrArg _ (h.entry_acquireWorker user).tasks
  | releaseWorker place =>
    simp only [act]
    cases (h.permitsOf user)[place]? with
    | none => rfl
    | some permit => rw [(h.entry_releaseWorker permit).tasks]

/-- A worker slot of another does not show among a user's. -/
theorem permitsOf_releaseWorker {permit : Permit} (hother : permit.user ≠ name) :
    (h.releaseWorker permit).permitsOf name = h.permitsOf name := by
  have hout : permit ∉ h.permits.filter fun permit => permit.user = name := by
    simp [hother]
  simp only [releaseWorker, permitsOf]
  split_ifs
  · exact (List.erase_filter ..).symm.trans (List.erase_of_not_mem hout)
  · rfl

/-- What another does leaves a user's slice alone. -/
theorem Change.slice_eq {effect : Effect} {sessions : Table Session} (ho : h.RunsOwned)
    (hother : name ≠ user) (heffect : effect.IsOf user sessions)
    (hforeign : ∀ id session, sessions.find? id = some session → session.username = user →
      (h.slice name).sessions.find? id = none)
    (hchange : Change effect h g) : g.slice name = h.slice name := by
  have hframe (users : Table User) (husers : users.find? name = h.users.find? name) :
      ({ h with users } : Host).slice name = h.slice name := by
    rw [slice, husers]
    rfl
  have hruns (run : Run) : ({ h with runs := h.runs.insert user run } : Host).slice name =
      h.slice name := by
    simp only [slice, outline, Table.find?_insert_of_ne _ _ hother]
    rfl
  cases hchange with
  | touched =>
    cases heffect
    exact hframe _ (Table.find?_insert_of_ne _ _ hother)
  | estimated =>
    cases heffect
    exact hframe _ (Table.find?_insert_of_ne _ _ hother)
  | hired =>
    cases heffect
    simp only [slice, permitsOf, Table.find?_insert_of_ne _ _ hother]
    rw [List.filter_cons_of_neg (by simpa using hother.symm)]
    rfl
  | @released _ permit =>
    have hpermit : permit.user ≠ name := fun hsame => hother (hsame.symm.trans heffect)
    have husers : (h.releaseWorker permit).users.find? name = h.users.find? name := by
      simp only [releaseWorker]
      split_ifs
      · split
        · split_ifs
          · exact Table.find?_insert_of_ne _ _ hpermit.symm
          · rfl
        · rfl
      · rfl
    have hruns : (h.releaseWorker permit).outline name = h.outline name := by
      simp only [releaseWorker]
      split_ifs <;> rfl
    have hsessions : (h.releaseWorker permit).sessions = h.sessions := by
      simp only [releaseWorker]
      split_ifs <;> rfl
    rw [slice, husers, hruns, hsessions, permitsOf_releaseWorker hpermit, slice]
  | launched =>
    cases heffect
    exact hruns _
  | counted =>
    cases heffect
    exact hruns _
  | @ended _ other run hfound =>
    cases heffect
    have hended := ho.outline_endRun hfound rfl .requested name
    rw [if_neg hother] at hended
    change Host.slice (h.endRun user run .requested) name = _
    rw [slice, hended]
    simp [slice, permitsOf, endRun, emit]
  | @checked _ key session current hfound husername =>
    obtain ⟨old, hold, howner⟩ := heffect
    have hnone := hforeign key old hold howner
    have hstranger : ¬decide (current.username = name) = true := by
      simp only [slice, Table.find?_filter, hfound, Option.filter_some] at hnone
      simpa [husername] using hnone
    have hsessions : (h.sessions.insert key current).filter
          (fun _ session => decide (session.username = name)) =
        h.sessions.filter fun _ session => decide (session.username = name) :=
      Table.filter_insert_of_neg _ hstranger hnone
    rw [slice, hsessions]
    rfl
  | _ => exact absurd heffect id

/-- What another does cancels no root. -/
theorem Change.root_mem {effect : Effect} {sessions : Table Session}
    (heffect : effect.IsOf user sessions) (hchange : Change effect h g) (id : Nat) :
    .root id ∈ g.cancelled ↔ .root id ∈ h.cancelled := by
  refine ⟨fun hmem => ?_, hchange.cancelled_kept _⟩
  rcases hchange.cancelled_of_mem hmem with
    hold | ⟨_, run, -, -, hscope⟩ | ⟨_, _, rfl, -, -⟩ | ⟨rfl, -⟩
  · exact hold
  · cases hscope
  · cases heffect
  · cases heffect

/-- Quiet changes leave every slice alone. -/
theorem Quiet.slice_eq (hquiet : Quiet h g) (name : String) : g.slice name = h.slice name := by
  rw [slice, permitsOf, hquiet.users, hquiet.outline_eq, hquiet.sessions, hquiet.permits]
  rfl

/-- To every other user the host looks as it did before what a user does on the own account. -/
theorem RunsOwned.alike_act (ho : h.RunsOwned) (hother : name ≠ user) {deed : Deed}
    (hown : h.IsOwn user deed) : Alike name h (h.act user deed).2 := by
  have hchanges := changes_act hown
  have hforeign (id : String) (session : Session) (hfound : h.sessions.find? id = some session)
      (howner : session.username = user) : (h.slice name).sessions.find? id = none := by
    have hstranger : ¬session.username = name := fun hsame => hother (hsame.symm.trans howner)
    simp [slice, Table.find?_filter, hfound, hstranger]
  obtain ⟨-, hslice, hroots⟩ : (h.act user deed).2.RunsOwned ∧
      (h.act user deed).2.slice name = h.slice name ∧
      ∀ id, .root id ∈ (h.act user deed).2.cancelled ↔ .root id ∈ h.cancelled := by
    refine hchanges.preserves (p := fun k => k.RunsOwned ∧ k.slice name = h.slice name ∧
      ∀ id, .root id ∈ k.cancelled ↔ .root id ∈ h.cancelled) ?_ ?_ ⟨ho, rfl, fun _ => Iff.rfl⟩
    · rintro a b hquiet ⟨howned, hslice, hroots⟩
      refine ⟨howned.quiet hquiet, (hquiet.slice_eq name).trans hslice, ?_⟩
      rw [hquiet.cancelled]
      exact hroots
    -- Which sessions are another's can be read off the slice, so it is the same all along.
    · rintro effect a b heffect hchange ⟨howned, hslice, hroots⟩
      rw [← hslice] at hforeign
      refine ⟨howned.change hchange, ?_, fun id => (hchange.root_mem heffect id).trans (hroots id)⟩
      exact (hchange.slice_eq howned hother heffect hforeign).trans hslice
  exact
    { toSameBuild := hchanges.sameBuild
      clock := hchanges.clock_eq id
      roots := hroots
      tracked := h.tracked_act user deed
      slice := hslice }

end Host

end Steward
