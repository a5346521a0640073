import Steward.Proofs.RateWindows
import Steward.Proofs.Slices
import Mathlib.Data.List.InsertIdx

/-!
# What users do on their own account

A user checks messages, starts, checks and stops programs, shows signs of life, records and compares
usage, and takes and gives back worker slots. All of it reads and writes the user's own slice of the
host, the clock and the policies. So where two hosts look alike to a user, what the user does is
answered alike, and they look alike afterwards.
-/

namespace Steward

/-- Something that a user does on the user's own account. -/
inductive Deed where
  | checkSession (session : String) (size : Nat)
  | start (program : String)
  | check (statement : Statement)
  | stop
  | executionReport
  | userAllowance
  | touch
  | recordUsage (cpu : Binary64) (memory : Nat)
  | checkUsage
  | acquireWorker
  /-- Give back one of the user's worker slots, by its place among them. -/
  | releaseWorker (place : Nat)

/-- What a deed is answered. -/
inductive Answer where
  | done (result : Except Fault Unit)
  | started (result : Except Overflow (Except Fault Handle))
  | reported (report : ExecutionReport)
  | allowed (result : Except Fault Allowance)
  | hired (result : Except Fault Permit)
  | released

/-- A handle without the identity of its scope. -/
def Handle.anonymous (handle : Handle) : Handle := { handle with scope := .background }

namespace Host

variable {name : String} {h g : Host}

/-- What a deed of a user is answered, and the host after it. -/
def act (h : Host) (user : String) : Deed → Answer × Host
  | .checkSession session size => (h.checkSession session size).map .done id
  | .start program =>
    (h.start user program).map
      (fun result => .started (result.map (Except.map Handle.anonymous))) id
  | .check statement => (h.check user statement).map .done id
  | .stop => (h.stop user).map .done id
  | .executionReport => (.reported (h.executionReport user), h)
  | .userAllowance => (h.userAllowance user).map .allowed id
  | .touch => (h.touch user).map .done id
  | .recordUsage cpu memory => (h.recordUsage user cpu memory).map .done id
  | .checkUsage => (h.checkUsage user).map .done id
  | .acquireWorker =>
    (h.acquireWorker user).map (fun result => .hired (result.map Permit.anonymous)) id
  | .releaseWorker place =>
    (.released,
      match (h.permitsOf user)[place]? with
      | some permit => h.releaseWorker permit
      | none => h)

/-- Whether a deed is on the user's own account: only own sessions are checked. -/
def IsOwn (h : Host) (user : String) : Deed → Prop
  | .checkSession id _ => ∃ session, h.sessions.find? id = some session ∧ session.username = user
  | _ => True

/-- Two outcomes of the same that are answered alike and look alike to a user. -/
def Same {α : Type} (name : String) (first second : α × Host) : Prop :=
  second.1 = first.1 ∧ Alike name first.2 second.2

/-- What is made of the answers only looks alike. -/
theorem Same.map {α β : Type} {first second : α × Host} (hsame : Same name first second)
    (f : α → β) : Same name (first.map f id) (second.map f id) :=
  ⟨congrArg f hsame.1, hsame.2⟩

/-- Reports about unknown names look alike. -/
theorem Same.reportUnknown {α : Type} {operation key : String}
    {first second : Except Fault α × Host} (hsame : Same name first second) :
    Same name (Host.reportUnknown operation key first)
      (Host.reportUnknown operation key second) := by
  obtain ⟨result, after⟩ := first
  obtain ⟨other, later⟩ := second
  obtain ⟨heq, ha⟩ := hsame
  dsimp only at heq ha
  subst heq
  cases other with
  | ok value => exact ⟨rfl, ha⟩
  | error fault =>
    simp only [Host.reportUnknown]
    split_ifs
    · exact ⟨rfl, ha.emit _ _⟩
    · exact ⟨rfl, ha⟩

/-! ## Worker slots are told apart -/

/-- Worker slots have identities that were used, and no two have one. -/
structure PermitsApart (h : Host) : Prop where
  apart : (h.permits.map Permit.id).Nodup
  used : ∀ permit ∈ h.permits, permit.id < h.nextId

/-- A change adds one worker slot under a new identity, or it adds none. -/
theorem Change.permits_cases {effect : Effect} (hchange : Change effect h g) :
    g.permits.Sublist h.permits ∨
      ∃ permit, g.permits = permit :: h.permits ∧ permit.id = h.nextId ∧
        g.nextId = h.nextId + 1 := by
  have hsame (heq : g.permits = h.permits) : g.permits.Sublist h.permits :=
    heq ▸ List.Sublist.refl _
  cases hchange with
  | hired => exact .inr ⟨_, rfl, rfl, rfl⟩
  | released =>
    refine .inl ?_
    simp only [releaseWorker]
    split_ifs
    · exact List.erase_sublist
    · exact List.Sublist.refl _
  | left => exact .inl (hsame (permits_cancel _ _))
  | ended => exact .inl (hsame (permits_cancel _ _))
  | cancelled => exact .inl (hsame (permits_cancel _ _))
  | _ => exact .inl (hsame rfl)

namespace PermitsApart

/-- No worker slot occurs twice. -/
theorem nodup (hp : h.PermitsApart) : h.permits.Nodup := hp.apart.of_map _

/-- Fewer worker slots are told apart too. -/
theorem fewer (hp : h.PermitsApart) (hsub : g.permits.Sublist h.permits)
    (hnext : h.nextId ≤ g.nextId) : g.PermitsApart where
  apart := hp.apart.sublist (hsub.map _)
  used permit hmem := (hp.used permit (hsub.subset hmem)).trans_le hnext

/-- Every small change keeps worker slots apart. -/
theorem change {effect : Effect} (hp : h.PermitsApart) (hchange : Change effect h g) :
    g.PermitsApart := by
  rcases hchange.permits_cases with hsub | ⟨permit, hpermits, hid, hnext⟩
  · exact hp.fewer hsub hchange.nextId_le
  · constructor
    · rw [hpermits, List.map_cons, List.nodup_cons]
      refine ⟨fun hmem => ?_, hp.apart⟩
      obtain ⟨other, hother, hsame⟩ := List.mem_map.1 hmem
      exact (hp.used other hother).ne (hsame.trans hid)
    · rw [hpermits, hnext]
      rintro other (_ | ⟨_, hother⟩)
      · exact hid ▸ Nat.lt_succ_self _
      · exact (hp.used other hother).trans (Nat.lt_succ_self _)

end PermitsApart

/-- In every reachable host worker slots are told apart. -/
theorem IsReachable.permitsApart (hreach : h.IsReachable) : h.PermitsApart := by
  obtain ⟨policies, sampler, timers, clockEnd, hchanges⟩ := hreach.changes
  refine hchanges.preserves (p := PermitsApart) ?_ (fun _ hchange hp => hp.change hchange) ?_
  · exact fun hquiet hp => hp.fewer (hquiet.permits ▸ List.Sublist.refl _) hquiet.nextId
  · exact ⟨List.nodup_nil, nofun⟩

/-- What a host keeps of a user who gives a worker slot back. -/
theorem PermitsApart.slice_releaseWorker (hp : h.PermitsApart) {place : Nat} {permit : Permit}
    (hheld : (h.permitsOf name)[place]? = some permit) :
    (h.releaseWorker permit).slice name =
      { h.slice name with
        user := (h.slice name).user.map fun user =>
          if user.registration = permit.registration then
            { user with workers := user.workers - 1 }
          else user
        permits := (h.slice name).permits.eraseIdx place } := by
  obtain ⟨hplace, hpermit⟩ := List.getElem?_eq_some_iff.1 hheld
  obtain ⟨hmem, howner⟩ := List.mem_filter.1 (List.mem_of_getElem? hheld)
  have howner : permit.user = name := of_decide_eq_true howner
  have hrest : ((h.permits.erase permit).filter fun permit => permit.user = name) =
      (h.permitsOf name).eraseIdx place := by
    have hnodup : (h.permitsOf name).Nodup := hp.nodup.filter _
    rw [← List.erase_filter, ← hnodup.erase_getElem place hplace, hpermit]
    rfl
  simp only [releaseWorker, List.contains_iff_mem, hmem, if_true, howner, slice, permitsOf, hrest,
    List.eraseIdx_map, Slice.mk.injEq]
  refine ⟨?_, rfl, trivial, trivial⟩
  cases hfound : h.users.find? name with
  | none => simpa using hfound
  | some user =>
    dsimp only
    split_ifs <;> simp [*]

/-! ## Deeds -/

/-- The scope of a run with a new identity is cancelled only with its root. -/
theorem RunsOwned.isCancelled_new (ho : h.RunsOwned) {run : Run} (hid : run.id = h.nextId) :
    h.isCancelled run.scope = h.isCancelled (.root run.registration) := by
  have hnew : Scope.child run.registration run.id ∉ h.cancelled := fun hmem =>
    absurd (ho.scopes _ hmem).2 (Nat.not_lt.2 hid.ge)
  rw [Bool.eq_iff_iff, isCancelled_iff, isCancelled_iff]
  simp [hnew, Run.scope]

namespace Alike

section Deeds

variable (ha : Alike name h g)
include ha

/-- The clock of signs of life is the same. -/
theorem stamp_eq : g.stamp = h.stamp := by
  rw [stamp, ha.clock, stamp]

/-- Naming something unknown. -/
theorem reportUnknown {α : Type} (operation key : String) (result : Except Fault α) :
    Alike name (Host.reportUnknown operation key (result, h)).2
      (Host.reportUnknown operation key (result, g)).2 :=
  (Same.reportUnknown (And.intro rfl ha : Same name (result, h) (result, g))).2

/-- Asking for the allowance. -/
theorem userAllowance : Same name (h.userAllowance name) (g.userAllowance name) := by
  refine Same.reportUnknown ⟨?_, ha⟩
  rw [ha.user?_eq]

/-- Showing a sign of life. -/
theorem touch : Same name (h.touch name) (g.touch name) := by
  refine Same.reportUnknown ?_
  rw [ha.user?_eq, ha.stamp_eq]
  cases h.user? name with
  | error fault => exact ⟨rfl, ha⟩
  | ok user => exact ⟨rfl, ha.insertUser _⟩

/-- Recording usage. -/
theorem recordUsage (cpu : Binary64) (memory : Nat) :
    Same name (h.recordUsage name cpu memory) (g.recordUsage name cpu memory) := by
  refine Same.reportUnknown ?_
  rw [ha.user?_eq]
  cases h.user? name with
  | error fault => exact ⟨rfl, ha⟩
  | ok user => exact ⟨rfl, ha.insertUser _⟩

/-- Comparing usage with the allowance. -/
theorem checkUsage : Same name (h.checkUsage name) (g.checkUsage name) := by
  refine Same.reportUnknown ?_
  rw [ha.user?_eq]
  cases h.user? name with
  | error fault => exact ⟨rfl, ha⟩
  | ok user =>
    dsimp only
    cases usageFault? user with
    | none => exact ⟨rfl, ha⟩
    | some fault => exact ⟨rfl, ha.emit _ _⟩

/-- Asking about the run. -/
theorem executionReport : g.executionReport name = h.executionReport name := by
  unfold Host.executionReport run?
  rcases ha.run_cases with ⟨hnone, hnone'⟩ | ⟨run, twin, hrun, htwin, hsame, -⟩
  · rw [hnone, hnone']
  · rw [hrun, htwin, hsame, ha.now_eq, ha.policies]

/-- Stopping the run. -/
theorem stop : Same name (h.stop name) (g.stop name) := by
  refine Same.reportUnknown ?_
  unfold stopIfRunning run?
  rcases ha.run_cases with ⟨hnone, hnone'⟩ | ⟨run, twin, hrun, htwin, -, -⟩
  · rw [hnone, hnone']
    exact ⟨rfl, ha⟩
  · rw [hrun, htwin]
    exact ⟨rfl, ha.endRun _ _ _⟩

/-- Checking a statement of the run. -/
theorem check (statement : Statement) :
    Same name (h.check name statement) (g.check name statement) := by
  rcases ha.run_cases with ⟨hnone, hnone'⟩ | ⟨run, twin, hrun, htwin, hsame, hopen⟩
  · unfold Host.check run?
    rw [hnone, hnone']
    exact Same.reportUnknown ⟨rfl, ha⟩
  · cases halive : h.isCancelled run.scope with
    | true =>
      have halive' := hopen.trans halive
      simp only [Host.check, run?, hrun, htwin, halive, halive', if_true]
      exact ⟨rfl, ha.endRun _ _ _⟩
    | false =>
      have hcounted : (twin.counting statement).anonymous = (run.counting statement).anonymous := by
        rw [hsame]
        rfl
      have hdeadline : twin.deadline = run.deadline := by rw [hsame]
      have hlimit : twin.limit = run.limit := by rw [hsame]
      have hcommands : (twin.counting statement).commands = (run.counting statement).commands := by
        rw [hsame]
        rfl
      have hloops : (twin.counting statement).loops = (run.counting statement).loops := by
        rw [hsame]
        rfl
      have hpolicy : g.policies.execution = h.policies.execution := by rw [ha.policies]
      rw [check_of_alive hrun halive, check_of_alive htwin (hopen.trans halive)]
      rw [ha.now_eq, hpolicy, hdeadline, hlimit, hcommands, hloops]
      split_ifs
      · exact ⟨rfl, ha.endRun _ _ _⟩
      · exact ⟨rfl, ha.endRun _ _ _⟩
      · exact ⟨rfl, ha.endRun _ _ _⟩
      · exact (ha.insertRun hcounted hopen).touch

/-- Taking a worker slot. -/
theorem acquireWorker : Same name
    ((h.acquireWorker name).map (Except.map Permit.anonymous) id)
    ((g.acquireWorker name).map (Except.map Permit.anonymous) id) := by
  unfold Host.acquireWorker
  rw [ha.user?_eq, ha.stamp_eq]
  cases h.user? name with
  | error fault =>
    exact ⟨rfl, ha.reportUnknown "acquire_worker" name (.error fault : Except Fault Permit)⟩
  | ok user =>
    dsimp only
    split_ifs
    · let busy : User := { user with workers := user.workers + 1, lastActivity := h.stamp }
      let permit (id : Nat) : Permit := ⟨id, name, user.registration⟩
      have hhired := (ha.insertUser busy).hire (permit h.nextId) (permit g.nextId) rfl rfl
      exact ⟨rfl, hhired.renumber (h.nextId + 1) (g.nextId + 1)⟩
    · exact ⟨rfl, ha⟩

/-- Checking a message of an own session. -/
theorem checkSession {id : String} {session : Session} (hfound : h.sessions.find? id = some session)
    (howner : session.username = name) (size : Nat) :
    Same name (h.checkSession id size) (g.checkSession id size) := by
  have hpolicy : g.policies.session = h.policies.session := by rw [ha.policies]
  have hpresent : session.present g = session.present h := by
    rw [Session.present, ha.now_eq, hpolicy, ha.clock, Session.present]
  have howner' : (session.present h).username = name := by
    rw [← howner]
    exact username_roll _ _ _
  refine Same.reportUnknown ?_
  rw [countMessage_of_find? hfound, countMessage_of_find? (ha.session hfound howner), hpresent,
    hpolicy]
  cases (session.present h).rateFault? h.policies.session size with
  | some fault =>
    have hrolled := ha.insertSession id _ howner'
    dsimp only
    split_ifs
    · exact ⟨rfl, hrolled.emit _ _⟩
    · exact ⟨rfl, hrolled⟩
  | none =>
    let counted := (session.present h).count size
    have htouched := (ha.insertSession id counted howner').touch
    dsimp only
    rw [howner']
    -- The answers do not say why an owner is missing, so only the outcomes of the touches matter.
    generalize Host.touch { h with sessions := h.sessions.insert id counted } name = first
      at htouched ⊢
    generalize Host.touch { g with sessions := g.sessions.insert id counted } name = second
      at htouched ⊢
    obtain ⟨answer, after⟩ := first
    obtain ⟨answer', after'⟩ := second
    obtain ⟨hanswer, hafter⟩ := htouched
    dsimp only at hanswer hafter
    subst hanswer
    cases answer' with
    | ok value => exact ⟨rfl, hafter⟩
    | error fault => exact ⟨rfl, hafter.emit _ _⟩

/-- A root is cancelled in both hosts or in none. -/
theorem isCancelled_root (id : Nat) : g.isCancelled (.root id) = h.isCancelled (.root id) := by
  rw [Bool.eq_iff_iff, isCancelled_iff, isCancelled_iff]
  simpa using ha.roots id

/-- Recording a new run. -/
theorem launch (ho : h.RunsOwned) (ho' : g.RunsOwned) (run twin : Run)
    (hsame : twin.anonymous = run.anonymous) (hid : run.id = h.nextId) (hid' : twin.id = g.nextId) :
    Same name ((h.launch name run).map (Except.map Handle.anonymous) id)
      ((g.launch name twin).map (Except.map Handle.anonymous) id) := by
  have htwin := Run.eq_of_anonymous hsame
  have hopen : g.isCancelled twin.scope = h.isCancelled run.scope := by
    rw [ho.isCancelled_new hid, ho'.isCancelled_new hid', htwin]
    exact ha.isCancelled_root run.registration
  unfold Host.launch run?
  rcases ha.run_cases with ⟨hnone, hnone'⟩ | ⟨other, other', hother, hother', -, -⟩
  · have hnext (k : Host) (next : Nat) (scope : Scope) :
        ({ k with nextId := next } : Host).isCancelled scope = k.isCancelled scope := rfl
    rw [hnone, hnone']
    dsimp only
    rw [hnext h, hnext g, hopen]
    split_ifs
    · exact ⟨rfl, ha.renumber _ _⟩
    · have hstarted := ((ha.insertRun hsame hopen).renumber (h.nextId + 1) (g.nextId + 1)).emit
        (.programStarted name run.program run.limit.seconds)
        (.programStarted name twin.program twin.limit.seconds)
      refine ⟨?_, hstarted.watchDeadline run twin⟩
      rw [htwin]
      rfl
  · rw [hother, hother']
    exact ⟨rfl, ha.emit _ _⟩

/-- Starting a program. -/
theorem start (ho : h.RunsOwned) (ho' : g.RunsOwned) (program : String) :
    Same name ((h.start name program).map (Except.map (Except.map Handle.anonymous)) id)
      ((g.start name program).map (Except.map (Except.map Handle.anonymous)) id) := by
  unfold Host.start
  rw [ha.user?_eq]
  cases h.user? name with
  | error fault =>
    exact ⟨rfl, ha.reportUnknown "user_limits" name (.error fault : Except Fault Handle)⟩
  | ok owner =>
    obtain ⟨-, htouched⟩ := ha.touch
    have htouch (k : Host) : Changes (fun _ => True) k (k.touch name).2 := changes_touch trivial
    have hto := ho.changes (htouch h)
    have hto' := ho'.changes (htouch g)
    dsimp only
    generalize (h.touch name).2 = before at htouched hto ⊢
    generalize (g.touch name).2 = before' at htouched hto' ⊢
    rw [htouched.later?_eq htouched.clock, htouched.clock]
    cases before.later? owner.allowance.maxExecutionTime with
    | none => exact ⟨rfl, htouched⟩
    | some deadline =>
      let run (id : Nat) : Run :=
        { id, registration := owner.registration, program, startedAt := before.clock, deadline,
          limit := owner.allowance.maxExecutionTime }
      obtain ⟨hanswer, hlaunched⟩ := htouched.launch hto hto' (run before.nextId)
        (run before'.nextId) rfl rfl rfl
      exact ⟨congrArg Except.ok hanswer, hlaunched⟩

/-- Giving a worker slot back. -/
theorem releaseWorker (hp : h.PermitsApart) (hp' : g.PermitsApart) (place : Nat) :
    Alike name (h.act name (.releaseWorker place)).2 (g.act name (.releaseWorker place)).2 := by
  have hseen := congrArg (·[place]?) ha.permits
  simp only [List.getElem?_map] at hseen
  cases hheld : (h.permitsOf name)[place]? with
  | none =>
    rw [hheld, Option.map_none, Option.map_eq_none_iff] at hseen
    simp only [act, hheld, hseen]
    exact ha
  | some permit =>
    rw [hheld, Option.map_some, Option.map_eq_some_iff] at hseen
    obtain ⟨twin, hheld', hsame⟩ := hseen
    have hregistration : twin.registration = permit.registration := by
      rw [Permit.eq_of_anonymous hsame]
    have hchanges (k : Host) (permit : Permit) :
        Changes (fun _ => True) k (k.releaseWorker permit) := changes_releaseWorker trivial
    have hcancelled (k : Host) (permit : Permit) :
        (k.releaseWorker permit).cancelled = k.cancelled := by
      simp only [Host.releaseWorker]; split_ifs <;> rfl
    have hclock (k : Host) (permit : Permit) : (k.releaseWorker permit).clock = k.clock := by
      simp only [Host.releaseWorker]; split_ifs <;> rfl
    simp only [act, hheld, hheld']
    exact
      { toSameBuild := (hchanges h permit).sameBuild.symm.trans
          (ha.toSameBuild.trans (hchanges g twin).sameBuild)
        clock := by rw [hclock, hclock, ha.clock]
        roots := by rw [hcancelled, hcancelled]; exact ha.roots
        tracked := by
          rw [(h.entry_releaseWorker permit).tasks, (g.entry_releaseWorker twin).tasks, ha.tracked]
        slice := by
          rw [hp.slice_releaseWorker hheld, hp'.slice_releaseWorker hheld', ha.slice,
            hregistration] }

/-- Whatever the user does on the own account is answered alike, and looks alike afterwards. -/
theorem act (ho : h.RunsOwned) (ho' : g.RunsOwned) (hp : h.PermitsApart) (hp' : g.PermitsApart)
    {deed : Deed} (hown : h.IsOwn name deed) : Same name (h.act name deed) (g.act name deed) := by
  cases deed with
  | checkSession id size =>
    obtain ⟨session, hfound, howner⟩ := hown
    exact (ha.checkSession hfound howner size).map _
  | start program => exact (ha.start ho ho' program).map Answer.started
  | check statement => exact (ha.check statement).map _
  | stop => exact ha.stop.map _
  | executionReport => exact ⟨congrArg Answer.reported ha.executionReport, ha⟩
  | userAllowance => exact ha.userAllowance.map _
  | touch => exact ha.touch.map _
  | recordUsage cpu memory => exact (ha.recordUsage cpu memory).map _
  | checkUsage => exact ha.checkUsage.map _
  | acquireWorker => exact ha.acquireWorker.map Answer.hired
  | releaseWorker place => exact ⟨rfl, ha.releaseWorker hp hp' place⟩

end Deeds

end Alike

end Host

end Steward
