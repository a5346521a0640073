import Steward.Proofs.Bystanders

/-!
# Users do not interfere

Users act in turns, in any order, and time passes in between. While no patrol fires, a user is
answered, and finds the own slice of the host in the end, as if nobody else had ever acted. Two
hosts are played side by side: one with everybody's turns, one without the turns of the others. They
look alike to the user after every turn that both take, and what the others do is not to be seen.
-/

namespace Steward

/-- A step of the clock. -/
inductive Tick where
  /-- Nothing fires. -/
  | jump (millis : Nat)
  | advance (millis : Nat)
  | sleep (millis : Nat)

/-- What happens while users act. -/
inductive Turn where
  | deed (user : String) (deed : Deed)
  | tick (tick : Tick)

/-- Whether a turn is one of the user's own or of the clock. -/
def Turn.concerns (name : String) : Turn → Bool
  | .deed user _ => user = name
  | .tick _ => true

namespace Host

/-- The host after a step of the clock. -/
def tick (h : Host) : Tick → Host
  | .jump millis => h.jump millis
  | .advance millis => h.advance millis
  | .sleep millis => h.sleep millis

/-- The host after a turn. -/
def turn (h : Host) : Turn → Host
  | .deed user deed => (h.act user deed).2
  | .tick tick => h.tick tick

/-- The host after some turns in order. -/
def play (h : Host) (turns : List Turn) : Host := turns.foldl turn h

/-- What a user is answered in the course of some turns. -/
def answers (h : Host) (name : String) : List Turn → List Answer
  | [] => []
  | .deed user deed :: rest =>
    let (answer, after) := h.act user deed
    if user = name then answer :: after.answers name rest else after.answers name rest
  | .tick tick :: rest => (h.tick tick).answers name rest

/-- Whether a turn is a deed on a user's own account, or a step of the clock without patrols. -/
def Admits (h : Host) : Turn → Prop
  | .deed user deed => h.IsOwn user deed
  | .tick (.jump _) => True
  | .tick (.advance millis) | .tick (.sleep millis) => h.PatrolsRest (h.clock + millis)

/-- Whether each of some turns is admitted where it is taken. -/
def AdmitsAll (h : Host) : List Turn → Prop
  | [] => True
  | turn :: rest => h.Admits turn ∧ (h.turn turn).AdmitsAll rest

variable {name : String} {h g k l : Host}

/-- Turns are actions, or nothing. -/
theorem turn_eq (h : Host) (turn : Turn) : ∃ actions, h.turn turn = h.performAll actions := by
  cases turn with
  | tick tick =>
    cases tick with
    | jump millis => exact ⟨[.jump millis], rfl⟩
    | advance millis => exact ⟨[.advance millis], rfl⟩
    | sleep millis => exact ⟨[.sleep millis], rfl⟩
  | deed user deed =>
    cases deed with
    | checkSession id size => exact ⟨[.checkSession id size], rfl⟩
    | start program => exact ⟨[.start user program], rfl⟩
    | check statement => exact ⟨[.check user statement], rfl⟩
    | stop => exact ⟨[.stop user], rfl⟩
    | executionReport => exact ⟨[], rfl⟩
    | userAllowance => exact ⟨[.userAllowance user], rfl⟩
    | touch => exact ⟨[.touch user], rfl⟩
    | recordUsage cpu memory => exact ⟨[.recordUsage user cpu memory], rfl⟩
    | checkUsage => exact ⟨[.checkUsage user], rfl⟩
    | acquireWorker => exact ⟨[.acquireWorker user], rfl⟩
    | releaseWorker place =>
      cases hheld : (h.permitsOf user)[place]? with
      | none => exact ⟨[], by simp [turn, act, hheld, performAll]⟩
      | some permit =>
        exact ⟨[.releaseWorker permit], by simp [turn, act, hheld, performAll, perform]⟩

/-- A turn keeps a host reachable. -/
theorem IsReachable.turn (hreach : h.IsReachable) (turn : Turn) : (h.turn turn).IsReachable := by
  obtain ⟨actions, hactions⟩ := h.turn_eq turn
  rw [hactions]
  exact hreach.performAll actions

namespace Alike

variable (ha : Alike name h g)
include ha

/-- Shutdown began in both hosts or in none. -/
theorem isShuttingDown : g.isShuttingDown = h.isShuttingDown := ha.isCancelled_root 0

/-- Patrols rest in both hosts or in none. -/
theorem patrolsRest {limit : Nat} (hrest : h.PatrolsRest limit) : g.PatrolsRest limit := by
  rcases hrest with hdown | hlate
  · exact .inl (ha.isShuttingDown.trans hdown)
  · refine .inr fun task hmem patrol hwork => ?_
    have htracked : task.isTracked = true := by simp [Task.isTracked, hwork]
    have hwaits : task ∈ g.tasks.filter Task.isTracked := List.mem_filter.2 ⟨hmem, htracked⟩
    rw [ha.tracked] at hwaits
    exact hlate task (List.mem_filter.1 hwaits).1 patrol hwork

/-- Where only deadlines pass, hosts that looked alike do so afterwards. -/
theorem lapsed {limit : Nat} (hh : Lapsed limit h k) (hg : Lapsed limit g l) : Alike name k l where
  toSameBuild := hh.toSameBuild.symm.trans (ha.toSameBuild.trans hg.toSameBuild)
  clock := by rw [hg.clock, hh.clock]
  roots id := by rw [hg.roots, hh.roots, ha.roots]
  tracked := by
    have hwaits {a b : Host} (hlapsed : Lapsed limit a b) : b.tasks.filter Task.isTracked =
        (if a.isShuttingDown then
          (a.tasks.filter Task.isTracked).filter fun task => !task.isCancellable
        else a.tasks.filter Task.isTracked).filter fun task => limit < task.dueMillis := by
      rw [hlapsed.tasks, List.filter_comm]
      split_ifs
      · rw [List.filter_comm Task.isTracked]
      · rfl
    rw [hwaits hg, hwaits hh, ha.tracked, ha.isShuttingDown]
  slice := by
    have hseen {a b : Host} (hlapsed : Lapsed limit a b) : b.slice name =
        { a.slice name with run := (a.slice name).run.filter (outlasts a.timers limit) } := by
      rw [Host.slice, permitsOf, hlapsed.users, hlapsed.runs, hlapsed.sessions, hlapsed.permits]
      rfl
    rw [hseen hg, hseen hh, ha.slice, ha.timers]

/-- The clock steps alike in hosts that look alike. -/
theorem tick (hreach : h.IsReachable) (hreach' : g.IsReachable) {tick : Tick}
    (hadmits : h.Admits (.tick tick)) : Alike name (h.tick tick) (g.tick tick) := by
  cases tick with
  | jump millis =>
    have hjumped : g.clock + millis = h.clock + millis := by rw [ha.clock]
    exact { ha with clock := hjumped, slice := ha.slice }
  | advance millis =>
    have hadvanced := lapsed_advance hreach' (ha.clock ▸ ha.patrolsRest hadmits)
    rw [ha.clock] at hadvanced
    exact ha.lapsed (lapsed_advance hreach hadmits) hadvanced
  | sleep millis =>
    have hslept := lapsed_sleep hreach' (ha.clock ▸ ha.patrolsRest hadmits)
    rw [ha.clock] at hslept
    exact ha.lapsed (lapsed_sleep hreach hadmits) hslept

/-- Played with and without the turns of others, hosts that looked alike to a user answer the user
alike and look alike in the end. -/
theorem play {turns : List Turn} (hreach : h.IsReachable) (hreach' : g.IsReachable)
    (hadmits : h.AdmitsAll turns) :
    g.answers name (turns.filter (Turn.concerns name)) = h.answers name turns ∧
      Alike name (h.play turns) (g.play (turns.filter (Turn.concerns name))) := by
  induction turns generalizing h g with
  | nil => exact ⟨rfl, ha⟩
  | cons turn rest ih =>
    obtain ⟨hfirst, hrest⟩ := hadmits
    have hnext := hreach.turn turn
    have hnext' := hreach'.turn turn
    cases turn with
    | tick tick => exact ih (ha.tick hreach hreach' hfirst) hnext hnext' hrest
    | deed user deed =>
      by_cases hown : user = name
      · subst hown
        obtain ⟨hanswer, hafter⟩ := ha.act hreach.runsOwned hreach'.runsOwned hreach.permitsApart
          hreach'.permitsApart hfirst
        obtain ⟨hlater, hend⟩ := ih hafter hnext hnext' hrest
        rw [List.filter_cons_of_pos (by simp [Turn.concerns])]
        refine ⟨?_, hend⟩
        simp only [answers, if_true]
        exact congrArg₂ List.cons hanswer hlater
      -- Only the host with everybody's turns moves on, and to the user it looks as before.
      · have hafter := (hreach.runsOwned.alike_act (Ne.symm hown) hfirst).symm.trans ha
        obtain ⟨hlater, hend⟩ := ih hafter hnext hreach' hrest
        rw [List.filter_cons_of_neg (by simpa [Turn.concerns] using hown)]
        refine ⟨?_, hend⟩
        simp only [answers, hown, if_false]
        exact hlater

end Alike

/-- Users do not interfere. Whatever users do on their own accounts in turns while time passes and
no patrol fires, each of them is answered, and finds the own record, run, sessions and worker slots
in the end, as without the turns of all others, but for the identities of runs and worker slots. -/
theorem users_do_not_interfere (hreach : h.IsReachable) (turns : List Turn)
    (hadmits : h.AdmitsAll turns) (name : String) :
    h.answers name (turns.filter (Turn.concerns name)) = h.answers name turns ∧
      (h.play (turns.filter (Turn.concerns name))).slice name = (h.play turns).slice name := by
  obtain ⟨hanswers, halike⟩ := (Alike.refl name h).play hreach hreach hadmits
  exact ⟨hanswers, halike.slice⟩

/-- Two users run programs, check messages and take worker slots; one run reaches its deadline. -/
theorem users_do_not_interfere_of_neighbours :
    ∃ start, IsBuilt { system := { maxExecutionTime := .ofMillis 10 } }
        ⟨⟨100, 0, 2048, 0⟩, none⟩ true start ∧
      let h := start.performAll
        [.registerSession "desk" "ana" "10.0.0.1", .registerSession "lamp" "ben" "10.0.0.2"]
      let turns : List Turn :=
        [.deed "ben" (.start "other"), .deed "ana" (.start "demo"), .deed "ben" .acquireWorker,
          .deed "ana" .acquireWorker, .tick (.sleep 4), .deed "ben" (.checkSession "lamp" 5),
          .deed "ana" (.checkSession "desk" 3), .deed "ben" (.check .for), .deed "ben" .stop,
          .deed "ben" (.start "next"), .deed "ana" (.releaseWorker 0), .tick (.advance 8),
          .deed "ana" (.check .for)]
      h.AdmitsAll turns ∧ (turns.filter (Turn.concerns "ana")).length = 7 ∧
        (h.play turns).isRunning "ana" = false ∧ (h.play turns).isRunning "ben" = true ∧
        h.answers "ana" (turns.filter (Turn.concerns "ana")) = h.answers "ana" turns ∧
        (h.play (turns.filter (Turn.concerns "ana"))).slice "ana" = (h.play turns).slice "ana" := by
  refine ⟨_, .of_build rfl, ?_⟩
  intro h turns
  have hbuilt : IsBuilt { system := { maxExecutionTime := .ofMillis 10 } }
      ⟨⟨100, 0, 2048, 0⟩, none⟩ true _ := .of_build rfl
  have hreach : h.IsReachable := ⟨_, _, _, _, _, hbuilt, rfl⟩
  have hrest (k : Host) (limit : Nat)
      (hnone : k.tasks.all (fun task => !task.isCancellable) = true) : k.PatrolsRest limit := by
    refine .inr fun task hmem patrol hwork => ?_
    have hspared := List.all_eq_true.1 hnone task hmem
    simp [Task.isCancellable, hwork] at hspared
  have hadmits : h.AdmitsAll turns :=
    ⟨trivial, trivial, trivial, trivial, hrest _ _ (by decide +kernel),
      Option.map_eq_some_iff.1 (by decide +kernel), Option.map_eq_some_iff.1 (by decide +kernel),
      trivial, trivial, trivial, trivial, hrest _ _ (by decide +kernel), trivial, trivial⟩
  obtain ⟨hanswers, hslice⟩ := users_do_not_interfere hreach turns hadmits "ana"
  exact ⟨hadmits, rfl, by decide +kernel, by decide +kernel, hanswers, hslice⟩

end Host

end Steward
