import Steward.Proofs.Lapses

/-!
# What a host keeps of a user

The record of a user, the run, the sessions and the worker slots are the user's slice of a host.
Two hosts look alike to a user when they keep the same slice, but for the identities of runs and
worker slots, and agree in what all users depend on: the policies, the clock, the cancelled roots
and what waits besides the deadlines.
-/

namespace Steward

/-- A worker slot without its identity. -/
def Permit.anonymous (permit : Permit) : Permit := { permit with id := 0 }

/-- What a host keeps of a user, but for the identities of runs and worker slots. -/
structure Slice where
  user : Option User
  /-- The run, and whether its scope was cancelled. -/
  run : Option (Run × Bool)
  sessions : Table Session
  permits : List Permit

/-- Runs that differ in their identities only. -/
theorem Run.eq_of_anonymous {run twin : Run} (hsame : twin.anonymous = run.anonymous) :
    twin = { run with id := twin.id } := by
  cases run
  cases twin
  simp only [anonymous, Run.mk.injEq, true_and] at hsame
  simpa using hsame

/-- Worker slots that differ in their identities only. -/
theorem Permit.eq_of_anonymous {permit twin : Permit} (hsame : twin.anonymous = permit.anonymous) :
    twin = { permit with id := twin.id } := by
  cases permit
  cases twin
  simp only [anonymous, Permit.mk.injEq, true_and] at hsame
  simpa using hsame

namespace Host

/-- The worker slots of a user, the latest first. -/
def permitsOf (h : Host) (name : String) : List Permit :=
  h.permits.filter fun permit => permit.user = name

/-- What a host keeps of a user. -/
def slice (h : Host) (name : String) : Slice where
  user := h.users.find? name
  run := h.outline name
  sessions := h.sessions.filter fun _ session => session.username = name
  permits := (h.permitsOf name).map Permit.anonymous

/-- Two hosts that look alike to a user. -/
structure Alike (name : String) (h g : Host) : Prop extends SameBuild h g where
  clock : g.clock = h.clock
  roots : ∀ id, .root id ∈ g.cancelled ↔ .root id ∈ h.cancelled
  tracked : g.tasks.filter Task.isTracked = h.tasks.filter Task.isTracked
  slice : g.slice name = h.slice name

variable {name : String} {h g k : Host}

namespace Alike

/-- A host looks like itself. -/
protected theorem refl (name : String) (h : Host) : Alike name h h :=
  ⟨.refl h, rfl, fun _ => Iff.rfl, rfl, rfl⟩

/-- Looking alike in a row. -/
protected theorem trans (hg : Alike name h g) (hk : Alike name g k) : Alike name h k where
  toSameBuild := hg.toSameBuild.trans hk.toSameBuild
  clock := hk.clock.trans hg.clock
  roots id := (hk.roots id).trans (hg.roots id)
  tracked := hk.tracked.trans hg.tracked
  slice := hk.slice.trans hg.slice

/-- Looking alike in the other direction. -/
protected theorem symm (hg : Alike name h g) : Alike name g h where
  toSameBuild := hg.toSameBuild.symm
  clock := hg.clock.symm
  roots id := (hg.roots id).symm
  tracked := hg.tracked.symm
  slice := hg.slice.symm

section Parts

variable (ha : Alike name h g)
include ha

/-- The record of the user is the same. -/
theorem user : g.users.find? name = h.users.find? name := congrArg Slice.user ha.slice

/-- The record of the user is the same, or the fault that it is missing. -/
theorem user?_eq : g.user? name = h.user? name := by
  rw [user?, ha.user, user?]

/-- The time is the same. -/
theorem now_eq : g.now = h.now := by
  rw [now, ha.clock, now]

/-- What there is to see of the run is the same. -/
theorem outline : g.outline name = h.outline name := congrArg Slice.run ha.slice

/-- The worker slots are the same but for their identities. -/
theorem permits : (g.permitsOf name).map Permit.anonymous =
    (h.permitsOf name).map Permit.anonymous := congrArg Slice.permits ha.slice

/-- A session of the user is the same. -/
theorem session {id : String} {session : Session} (hfound : h.sessions.find? id = some session)
    (howner : session.username = name) : g.sessions.find? id = some session := by
  have hsessions := congrArg (fun slice => slice.sessions.find? id) ha.slice
  simp only [Host.slice, Table.find?_filter, hfound, Option.filter_some, howner, decide_true,
    if_true] at hsessions
  exact (Option.filter_eq_some_iff.1 hsessions).1

/-- The user has a run in both hosts or in none, and it is the same but for its identity. -/
theorem run_cases :
    (h.runs.find? name = none ∧ g.runs.find? name = none) ∨
      ∃ run twin, h.runs.find? name = some run ∧ g.runs.find? name = some twin ∧
        twin = { run with id := twin.id } ∧
        g.isCancelled twin.scope = h.isCancelled run.scope := by
  have houtline := ha.outline
  unfold Host.outline at houtline
  cases hrun : h.runs.find? name with
  | none =>
    rw [hrun, Option.map_none, Option.map_eq_none_iff] at houtline
    exact .inl ⟨rfl, houtline⟩
  | some run =>
    rw [hrun, Option.map_some, Option.map_eq_some_iff] at houtline
    obtain ⟨twin, htwin, hseen⟩ := houtline
    obtain ⟨hsame, hopen⟩ := Prod.mk.inj hseen
    exact .inr ⟨run, twin, rfl, htwin, Run.eq_of_anonymous hsame, hopen⟩

end Parts

end Alike

/-! ## Slices after single updates -/

section Updates

/-- The slice of a user whose record was replaced. -/
theorem slice_insertUser (h : Host) (name : String) (user : User) :
    ({ h with users := h.users.insert name user } : Host).slice name =
      { h.slice name with user := some user } := by
  simp only [slice, Table.find?_insert_self]
  rfl

/-- The slice of a user of whom a session was replaced. -/
theorem slice_insertSession (h : Host) (id : String) {session : Session}
    (howner : session.username = name) :
    ({ h with sessions := h.sessions.insert id session } : Host).slice name =
      { h.slice name with sessions := (h.slice name).sessions.insert id session } := by
  have hsessions : (h.sessions.insert id session).filter
        (fun _ session => decide (session.username = name)) =
      (h.sessions.filter fun _ session => decide (session.username = name)).insert id session :=
    Table.filter_insert_of_pos _ (decide_eq_true howner)
  simp only [slice, hsessions]
  rfl

/-- The slice of a user whose run was replaced. -/
theorem slice_insertRun (h : Host) (name : String) (run : Run) :
    ({ h with runs := h.runs.insert name run } : Host).slice name =
      { h.slice name with run := some (run.anonymous, h.isCancelled run.scope) } := by
  simp only [slice, outline, Table.find?_insert_self]
  rfl

/-- The slice of a user whose run was ended. -/
theorem slice_endRun (h : Host) (name : String) (run : Run) (reason : StopReason) :
    (h.endRun name run reason).slice name = { h.slice name with run := none } := by
  simp [slice, outline, permitsOf, endRun, emit]

/-- The slice of a user to whom a worker slot was given. -/
theorem slice_hire (h : Host) {permit : Permit} (howner : permit.user = name) :
    ({ h with permits := permit :: h.permits } : Host).slice name =
      { h.slice name with permits := permit.anonymous :: (h.slice name).permits } := by
  simp only [slice, permitsOf, List.filter_cons_of_pos (p := fun permit : Permit =>
    decide (permit.user = name)) (decide_eq_true howner), List.map_cons]
  rfl

end Updates

/-- A watched deadline is the only thing that waits anew. -/
theorem tracked_watchDeadline (h : Host) (name : String) (run : Run) :
    (h.watchDeadline name run).tasks.filter Task.isTracked = h.tasks.filter Task.isTracked := by
  unfold watchDeadline
  split_ifs
  · simp [await, fresh, Task.isTracked, List.filter_append]
  · rfl

/-! ## Alike after alike updates -/

namespace Alike

section Updates

variable (ha : Alike name h g)
include ha

/-- Whatever is reported. -/
theorem emit (event twin : Event) : Alike name (h.emit event) (g.emit twin) :=
  { ha with slice := ha.slice }

/-- Whatever identities were used. -/
theorem renumber (next other : Nat) :
    Alike name { h with nextId := next } { g with nextId := other } :=
  { ha with slice := ha.slice }

/-- With the same record of the user. -/
theorem insertUser (user : User) :
    Alike name { h with users := h.users.insert name user }
      { g with users := g.users.insert name user } :=
  { ha with slice := by rw [slice_insertUser, slice_insertUser, ha.slice] }

/-- With the same session of the user. -/
theorem insertSession (id : String) (session : Session) (howner : session.username = name) :
    Alike name { h with sessions := h.sessions.insert id session }
      { g with sessions := g.sessions.insert id session } :=
  { ha with
    slice := by
      rw [slice_insertSession _ _ howner, slice_insertSession _ _ howner, ha.slice] }

/-- With the same run of the user. -/
theorem insertRun {run twin : Run} (hsame : twin.anonymous = run.anonymous)
    (hopen : g.isCancelled twin.scope = h.isCancelled run.scope) :
    Alike name { h with runs := h.runs.insert name run }
      { g with runs := g.runs.insert name twin } :=
  { ha with slice := by rw [slice_insertRun, slice_insertRun, ha.slice, hsame, hopen] }

/-- Without the run of the user. -/
theorem endRun (run twin : Run) (reason : StopReason) :
    Alike name (h.endRun name run reason) (g.endRun name twin reason) where
  toSameBuild := (sameBuild_endRun h name run reason).symm.trans
    (ha.toSameBuild.trans (sameBuild_endRun g name twin reason))
  clock := by simpa [Host.endRun, Host.emit] using ha.clock
  roots id := by rw [root_mem_endRun, root_mem_endRun, ha.roots]
  tracked := by simpa [Host.endRun, Host.emit] using ha.tracked
  slice := by rw [slice_endRun, slice_endRun, ha.slice]

/-- With the same further worker slot of the user. -/
theorem hire (permit twin : Permit) (howner : permit.user = name)
    (hsame : twin.anonymous = permit.anonymous) :
    Alike name { h with permits := permit :: h.permits }
      { g with permits := twin :: g.permits } := by
  have howner' : twin.user = name := by
    rw [Permit.eq_of_anonymous hsame]
    exact howner
  exact { ha with slice := by rw [slice_hire _ howner, slice_hire _ howner', ha.slice, hsame] }

/-- With the run of the user watched. -/
theorem watchDeadline (run twin : Run) :
    Alike name (h.watchDeadline name run) (g.watchDeadline name twin) := by
  have htracked : (g.watchDeadline name twin).tasks.filter Task.isTracked =
      (h.watchDeadline name run).tasks.filter Task.isTracked := by
    rw [tracked_watchDeadline, tracked_watchDeadline, ha.tracked]
  revert htracked
  unfold Host.watchDeadline
  rw [ha.timers]
  split_ifs
  · exact fun htracked => { ha with tracked := htracked, slice := ha.slice }
  · exact fun _ => ha.emit _ _

end Updates

end Alike

end Host

end Steward
