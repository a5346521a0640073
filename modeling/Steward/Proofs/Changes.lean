import Steward.Proofs.Actions
import Steward.Proofs.Lookup
import Mathlib.Logic.Relation

/-!
# Small changes of a host

Whatever happens to a host happens in small changes of few kinds. Each kind is named by its effect
and says under which circumstances it comes about and what it leaves behind. An invariant of the
small changes is an invariant of every operation, of every task that fires and of every history.
-/

namespace Steward

/-- What a small change is about. -/
inductive Effect where
  | joined (user : String)
  | left (user : String)
  | touched (user : String)
  | estimated (user : String)
  /-- A monitor cycle. -/
  | surveyed
  /-- A worker slot was taken. -/
  | hired (user : String)
  /-- A worker slot was given back. -/
  | released (permit : Permit)
  | launched (user : String)
  /-- A statement of a run was counted. -/
  | counted (user : String)
  | ended (user : String)
  | opened (session : String)
  | refreshed (session : String)
  /-- A message of a session was checked. -/
  | checked (session : String)
  | closed (session : String)
  | cancelled (scope : Scope)
  /-- The clock moved. -/
  | ticked

/-- Whether an event is only a note: it tells of no user, session or run that comes or goes. -/
def Event.isNote : Event → Bool
  | .userRegistered .. | .userUnregistered .. | .sessionRegistered .. | .sessionUnregistered ..
  | .programStarted .. | .programStopped .. => false
  | _ => true

/-- Whether an event is reported by a monitor cycle that measured the process. -/
def Event.isSurvey : Event → Bool
  | .userInactive .. | .sampled .. => true
  | _ => false

/-- Whether an event is a note of something else than a monitor cycle. -/
def Event.isRemark (event : Event) : Bool := event.isNote && !event.isSurvey

/-- A remark is a note. -/
theorem Event.isNote_of_isRemark {event : Event} (hremark : event.isRemark = true) :
    event.isNote = true :=
  (Bool.and_eq_true_iff.1 hremark).1

/-- A remark is no part of a survey. -/
theorem Event.isSurvey_of_isRemark {event : Event} (hremark : event.isRemark = true) :
    event.isSurvey = false := by
  simpa using (Bool.and_eq_true_iff.1 hremark).2

namespace Host

/-! ## Fields after single updates -/

section Fields

variable (h : Host) (scope : Scope)

@[simp] theorem policies_cancel : (h.cancel scope).policies = h.policies := by
  unfold cancel; split <;> rfl

@[simp] theorem totalMemory_cancel : (h.cancel scope).totalMemory = h.totalMemory := by
  unfold cancel; split <;> rfl

@[simp] theorem timers_cancel : (h.cancel scope).timers = h.timers := by
  unfold cancel; split <;> rfl

@[simp] theorem clockEnd_cancel : (h.cancel scope).clockEnd = h.clockEnd := by
  unfold cancel; split <;> rfl

@[simp] theorem clock_cancel : (h.cancel scope).clock = h.clock := by
  unfold cancel; split <;> rfl

@[simp] theorem served_cancel : (h.cancel scope).served = h.served := by
  unfold cancel; split <;> rfl

@[simp] theorem users_cancel : (h.cancel scope).users = h.users := by
  unfold cancel; split <;> rfl

@[simp] theorem runs_cancel : (h.cancel scope).runs = h.runs := by
  unfold cancel; split <;> rfl

@[simp] theorem sessions_cancel : (h.cancel scope).sessions = h.sessions := by
  unfold cancel; split <;> rfl

@[simp] theorem permits_cancel : (h.cancel scope).permits = h.permits := by
  unfold cancel; split <;> rfl

@[simp] theorem inactive_cancel : (h.cancel scope).inactive = h.inactive := by
  unfold cancel; split <;> rfl

@[simp] theorem lastSample_cancel : (h.cancel scope).lastSample = h.lastSample := by
  unfold cancel; split <;> rfl

@[simp] theorem tasks_cancel : (h.cancel scope).tasks = h.tasks := by
  unfold cancel; split <;> rfl

@[simp] theorem nextId_cancel : (h.cancel scope).nextId = h.nextId := by
  unfold cancel; split <;> rfl

@[simp] theorem journal_cancel : (h.cancel scope).journal = h.journal := by
  unfold cancel; split <;> rfl

end Fields

/-- Cancelling adds one scope to the cancelled ones. -/
@[simp] theorem mem_cancelled_cancel {h : Host} {scope other : Scope} :
    other ∈ (h.cancel scope).cancelled ↔ other = scope ∨ other ∈ h.cancelled := by
  unfold cancel
  split_ifs with hmem
  · have hmem' : scope ∈ h.cancelled := by simpa using hmem
    constructor
    · exact Or.inr
    · rintro (rfl | hother)
      · exact hmem'
      · exact hother
  · simp

/-- A scope is cancelled by itself or with its root. -/
theorem isCancelled_iff {h : Host} {scope : Scope} :
    h.isCancelled scope = true ↔
      scope ∈ h.cancelled ∨ ∃ root id, scope = .child root id ∧ .root root ∈ h.cancelled := by
  cases scope <;> simp [isCancelled]

/-- The host with a new user among whom the pools are shared anew. -/
def welcome (h : Host) (name : String) : Host :=
  { h with
    users := h.users.insert name
      { registration := h.nextId, allowance := h.shareOf 1, lastActivity := h.stamp }
    nextId := h.nextId + 1 }.reshare

/-- The users after a departure. -/
theorem users_removeUser (h : Host) (name : String) (user : User) :
    (h.removeUser name user).users =
      (h.users.erase name).map fun other =>
        { other with allowance := h.shareOf (h.users.erase name).size } := by
  simp [removeUser, reshare, shareOf]

/-! ## Kinds of changes -/

/-- Two hosts that agree in all that is settled when a host is built. -/
structure SameBuild (h g : Host) : Prop where
  policies : g.policies = h.policies
  totalMemory : g.totalMemory = h.totalMemory
  timers : g.timers = h.timers
  clockEnd : g.clockEnd = h.clockEnd

/-- Two hosts that differ in what waits, in what is reported and in what will be measured, but not
in what they govern. -/
structure Quiet (h g : Host) : Prop extends SameBuild h g where
  clock : g.clock = h.clock
  users : g.users = h.users
  runs : g.runs = h.runs
  sessions : g.sessions = h.sessions
  permits : g.permits = h.permits
  inactive : g.inactive = h.inactive
  lastSample : g.lastSample = h.lastSample
  cancelled : g.cancelled = h.cancelled
  nextId : h.nextId ≤ g.nextId
  served : h.served ≤ h.clock → g.served ≤ g.clock

/-- A small change with its effect. -/
inductive Change : Effect → Host → Host → Prop
  | joined {h name} (hnew : h.users.find? name = none)
      (hroom : h.users.size < h.policies.system.maxUsers) :
      Change (.joined name) h (h.welcome name)
  | left {h name user} (hfound : h.users.find? name = some user) :
      Change (.left name) h (h.removeUser name user)
  | touched {h name user} (hfound : h.users.find? name = some user) :
      Change (.touched name) h
        { h with users := h.users.insert name { user with lastActivity := h.stamp } }
  | estimated {h name user} (hfound : h.users.find? name = some user) (cpu : Binary64)
      (memory : Nat) :
      Change (.estimated name) h
        { h with
          users := h.users.insert name
            { user with estimatedCpu := cpu, estimatedMemory := memory } }
  | surveyed {h} (sample : Sample) :
      Change .surveyed h
        { h.spreadUsage sample with inactive := h.idleUsers, lastSample := some sample }
  | hired {h name user} (hfound : h.users.find? name = some user)
      (hroom : user.workers < user.allowance.maxWorkers) :
      Change (.hired name) h
        { h with
          users := h.users.insert name
            { user with workers := user.workers + 1, lastActivity := h.stamp }
          permits := ⟨h.nextId, name, user.registration⟩ :: h.permits
          nextId := h.nextId + 1 }
  | released {h permit} (hheld : permit ∈ h.permits) :
      Change (.released permit) h (h.releaseWorker permit)
  | launched {h name user run} (hfound : h.users.find? name = some user)
      (hidle : h.runs.find? name = none) (hid : run.id = h.nextId)
      (hregistration : run.registration = user.registration)
      (hstart : run.startedAt = h.clock) (hcommands : run.commands = 0) (hloops : run.loops = 0)
      (hdeadline : h.later? run.limit = some run.deadline)
      (halive : h.isCancelled run.scope = false) :
      Change (.launched name) h
        { h with runs := h.runs.insert name run, nextId := h.nextId + 1 }
  | counted {h name run} (hfound : h.runs.find? name = some run)
      (halive : h.isCancelled run.scope = false) (commands loops : Nat) :
      Change (.counted name) h
        { h with runs := h.runs.insert name { run with commands, loops } }
  | ended {h name run} (hfound : h.runs.find? name = some run) :
      Change (.ended name) h ({ h with runs := h.runs.erase name }.cancel run.scope)
  | opened {h id} (hnew : h.sessions.find? id = none) (user address : String) :
      Change (.opened id) h
        { h with
          sessions := h.sessions.insert id
            { username := user, address, windowStart := h.now, lastActivity := h.clock } }
  | refreshed {h id session} (hfound : h.sessions.find? id = some session) (connections : Nat) :
      Change (.refreshed id) h
        { h with
          sessions := h.sessions.insert id { session with connections, lastActivity := h.clock } }
  | checked {h id session current} (hfound : h.sessions.find? id = some session)
      (husername : current.username = session.username)
      (haddress : current.address = session.address)
      (hconnections : current.connections = session.connections)
      (hactivity : current.lastActivity = h.clock) :
      Change (.checked id) h { h with sessions := h.sessions.insert id current }
  | closed {h id session} (hfound : h.sessions.find? id = some session) :
      Change (.closed id) h { h with sessions := h.sessions.erase id }
  | cancelled {h} {scope : Scope} (hissued : h.hasIssued scope = true ∨ scope = .background) :
      Change (.cancelled scope) h (h.cancel scope)
  | ticked {h} {clock : Nat} (hle : h.clock ≤ clock) : Change .ticked h { h with clock }

/-- Some changes in a row, each of an allowed effect or quiet. -/
def Changes (may : Effect → Prop) : Host → Host → Prop :=
  Relation.ReflTransGen fun h g => Quiet h g ∨ ∃ effect, may effect ∧ Change effect h g

namespace SameBuild

/-- A host agrees with itself. -/
protected theorem refl (h : Host) : SameBuild h h :=
  ⟨rfl, rfl, rfl, rfl⟩

/-- Agreeing in a row. -/
protected theorem trans {h g k : Host} (hg : SameBuild h g) (hk : SameBuild g k) :
    SameBuild h k where
  policies := hk.policies.trans hg.policies
  totalMemory := hk.totalMemory.trans hg.totalMemory
  timers := hk.timers.trans hg.timers
  clockEnd := hk.clockEnd.trans hg.clockEnd

/-- Agreeing in the other direction. -/
protected theorem symm {h g : Host} (hg : SameBuild h g) : SameBuild g h where
  policies := hg.policies.symm
  totalMemory := hg.totalMemory.symm
  timers := hg.timers.symm
  clockEnd := hg.clockEnd.symm

/-- At the same time, clocks with the same end can hold the same points. -/
theorem later?_eq {h g : Host} (hsame : SameBuild h g) (hclock : g.clock = h.clock)
    (length : Span) : g.later? length = h.later? length := by
  rw [later?, later?, now, now, hclock, hsame.clockEnd]

end SameBuild

namespace Quiet

/-- Hosts differ quietly when they would be equal with the same tasks, reports and measurements. -/
theorem of_eq {h g : Host}
    (hsame : { g with
      sampler := h.sampler, tasks := h.tasks, dependents := h.dependents, served := h.served,
      nextId := h.nextId, journal := h.journal } = h)
    (hnext : h.nextId ≤ g.nextId) (hserved : h.served ≤ h.clock → g.served ≤ g.clock) :
    Quiet h g where
  policies := by rw [← hsame]
  totalMemory := by rw [← hsame]
  timers := by rw [← hsame]
  clockEnd := by rw [← hsame]
  clock := by rw [← hsame]
  users := by rw [← hsame]
  runs := by rw [← hsame]
  sessions := by rw [← hsame]
  permits := by rw [← hsame]
  inactive := by rw [← hsame]
  lastSample := by rw [← hsame]
  cancelled := by rw [← hsame]
  nextId := hnext
  served := hserved

/-- Nothing happened. -/
protected theorem refl (h : Host) : Quiet h h :=
  .of_eq rfl le_rfl id

/-- One thing after the other. -/
protected theorem trans {h g k : Host} (hg : Quiet h g) (hk : Quiet g k) : Quiet h k where
  toSameBuild := hg.toSameBuild.trans hk.toSameBuild
  clock := hk.clock.trans hg.clock
  users := hk.users.trans hg.users
  runs := hk.runs.trans hg.runs
  sessions := hk.sessions.trans hg.sessions
  permits := hk.permits.trans hg.permits
  inactive := hk.inactive.trans hg.inactive
  lastSample := hk.lastSample.trans hg.lastSample
  cancelled := hk.cancelled.trans hg.cancelled
  nextId := hg.nextId.trans hk.nextId
  served := hk.served ∘ hg.served

end Quiet

/-! ## What is quiet -/

section QuietUpdates

variable (h : Host)

/-- An event changes nothing that is governed. -/
theorem quiet_emit (event : Event) : Quiet h (h.emit event) :=
  .of_eq rfl le_rfl id

/-- Events change nothing that is governed. -/
theorem quiet_emitAll (events : List Event) : Quiet h (h.emitAll events) := by
  induction events generalizing h with
  | nil => exact .refl h
  | cons event rest ih => exact (h.quiet_emit event).trans (ih (h.emit event))

/-- Taking a number changes nothing that is governed. -/
theorem quiet_fresh : Quiet h h.fresh.2 :=
  .of_eq rfl (Nat.le_succ _) id

/-- Waiting changes nothing that is governed. -/
theorem quiet_await (id : Nat) (due : Span) (work : Work) : Quiet h (h.await id due work) :=
  .of_eq rfl le_rfl (fun hle => hle)

/-- A task that no longer waits changes nothing that is governed. -/
theorem quiet_dropTask (id : Nat) : Quiet h (h.dropTask id) :=
  .of_eq rfl le_rfl (fun hle => hle)

/-- Having looked for tasks changes nothing that is governed. -/
theorem quiet_served {served : Nat} (hle : served ≤ h.clock) : Quiet h { h with served } :=
  .of_eq rfl le_rfl (fun _ => hle)

/-- What will be measured changes nothing that is governed. -/
theorem quiet_sampler (sampler : Sampler) : Quiet h { h with sampler } :=
  .of_eq rfl le_rfl id

/-- A scope opened under the background scope changes nothing that is governed. -/
theorem quiet_openScope : Quiet h h.openScope.2 := by
  simp only [openScope]
  split
  · exact h.quiet_fresh
  · exact h.quiet_fresh.trans (.of_eq rfl le_rfl id)

/-- A scope closed under the background scope changes nothing that is governed. -/
theorem quiet_closeScope (id : Nat) : Quiet h (h.closeScope id) := by
  unfold closeScope
  split
  · exact .refl h
  · exact .of_eq rfl le_rfl (fun hle => hle)

/-- Letting go of a scope changes nothing that is governed. -/
theorem quiet_releaseScope (scope : Scope) : Quiet h (h.releaseScope scope) := by
  unfold releaseScope
  split
  · exact h.quiet_closeScope _
  · exact .refl h

/-- Cancelled tasks end without changing what is governed. -/
theorem quiet_endCancelled : Quiet h h.endCancelled := by
  unfold endCancelled
  split
  · refine Quiet.trans ?_ (quiet_emitAll _ _)
    exact .of_eq rfl le_rfl id
  · exact .refl h

/-- A report about an unknown name changes nothing that is governed. -/
theorem quiet_reportUnknown {α : Type} (operation key : String) (outcome : Except Fault α × Host) :
    Quiet outcome.2 (reportUnknown operation key outcome).2 := by
  obtain ⟨result, g⟩ := outcome
  cases result with
  | ok value => exact .refl g
  | error fault =>
    simp only [reportUnknown]
    split
    · exact g.quiet_emit _
    · exact .refl g

end QuietUpdates

namespace Changes

variable {may : Effect → Prop} {h g k : Host}

/-- Nothing happened. -/
protected theorem refl (h : Host) : Changes may h h := Relation.ReflTransGen.refl

/-- One row of changes after another. -/
protected theorem trans (hg : Changes may h g) (hk : Changes may g k) : Changes may h k :=
  Relation.ReflTransGen.trans hg hk

/-- A quiet change. -/
theorem quiet (hg : Quiet h g) : Changes may h g := Relation.ReflTransGen.single (.inl hg)

/-- A change of an allowed effect. -/
theorem single {effect : Effect} (heffect : may effect) (hg : Change effect h g) :
    Changes may h g :=
  Relation.ReflTransGen.single (.inr ⟨effect, heffect, hg⟩)

/-- What more is allowed does not matter. -/
theorem mono {might : Effect → Prop} (hle : ∀ effect, may effect → might effect)
    (hg : Changes may h g) : Changes might h g := by
  refine Relation.ReflTransGen.mono ?_ h g hg
  intro a b hstep
  exact hstep.imp_right fun ⟨effect, heffect, hchange⟩ => ⟨effect, hle effect heffect, hchange⟩

/-- What quiet changes and changes of allowed effects keep is kept. -/
theorem preserves {p : Host → Prop} (hg : Changes may h g)
    (hquiet : ∀ {a b}, Quiet a b → p a → p b)
    (hchange : ∀ {effect a b}, may effect → Change effect a b → p a → p b) (hp : p h) : p g := by
  induction hg with
  | refl => exact hp
  | tail _ hstep ih =>
    rcases hstep with hstep | ⟨effect, heffect, hstep⟩
    · exact hquiet hstep ih
    · exact hchange heffect hstep ih

end Changes

/-! ## What no change touches -/

section Fixed

variable {effect : Effect} {may : Effect → Prop} {h g : Host}

/-- What is settled when a host is built never changes. -/
theorem Change.sameBuild (hchange : Change effect h g) : SameBuild h g := by
  cases hchange with
  | released =>
    simp only [releaseWorker]
    split_ifs <;> exact ⟨rfl, rfl, rfl, rfl⟩
  | _ => constructor <;> simp [welcome, reshare, spreadUsage, removeUser]

/-- Identities are not used twice. -/
theorem Change.nextId_le (hchange : Change effect h g) : h.nextId ≤ g.nextId := by
  cases hchange with
  | released => simp only [releaseWorker]; split_ifs <;> exact le_rfl
  | _ => simp [welcome, reshare, spreadUsage, removeUser]

/-- What is settled when a host is built never changes. -/
theorem Changes.sameBuild (hchanges : Changes may h g) : SameBuild h g := by
  refine hchanges.preserves (p := SameBuild h) ?_ ?_ (.refl h)
  · exact fun hquiet hsame => hsame.trans hquiet.toSameBuild
  · exact fun _ hchange hsame => hsame.trans hchange.sameBuild

/-- Policies never change. -/
theorem Changes.policies_eq (hchanges : Changes may h g) : g.policies = h.policies :=
  hchanges.sameBuild.policies

/-- Identities are not used twice. -/
theorem Changes.nextId_le (hchanges : Changes may h g) : h.nextId ≤ g.nextId := by
  refine hchanges.preserves (p := fun k => h.nextId ≤ k.nextId) ?_ ?_ le_rfl
  · exact fun hquiet hle => hle.trans hquiet.nextId
  · exact fun _ hchange hle => hle.trans hchange.nextId_le

end Fixed

end Host

end Steward
