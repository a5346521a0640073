import Steward.Host.Clock

/-!
# Background tasks and shutdown

The patrols and the sleepers are spawned here. Shutdown cancels the background scope for good, waits
for the tasks that do not end by it, and gives up after a time. A task spawned later ends as soon as
it runs, unless nothing cancels it.
-/

namespace Steward.Host

/-- The number of tasks that shutdown would wait for. -/
def activeTasks (h : Host) : Nat := h.tasks.countP Task.isTracked

/-- Begin a patrol in its scope. Without a period, or with one that the clock cannot hold, it ends
before it begins; after shutdown it ends at once. -/
def beginPatrol (h : Host) (id : Nat) (patrol : Patrol) : Host :=
  let period := h.period patrol
  match h.later? period with
  | none => h.closeScope id
  | some due =>
    if period.nanos = 0 then h.closeScope id
    else
      let started := h.emit (.patrolStarted patrol period.seconds)
      if h.isShuttingDown then started.emit (.patrolStopped patrol)
      else started.await id due (.patrol patrol)

/-- The patrols in the order in which they are spawned. -/
def patrols : List Patrol := [.monitor, .memoryGuard, .idleSweep]

/-- Announce patrols and open a scope for each. -/
def announce : List Patrol → Host → List (Nat × Patrol) × Host
  | [], h => ([], h)
  | patrol :: rest, h =>
    let (id, opened) := (h.emit (.taskSpawned patrol.taskName)).openScope
    let (others, announced) := announce rest opened
    ((id, patrol) :: others, announced)

/-- Spawn the three patrols and let tasks run: first what was ready before, then the patrols. -/
def spawnPatrols (h : Host) : Host :=
  let (spawned, announced) := announce patrols h
  (spawned.foldl (fun g (id, patrol) => g.beginPatrol id patrol) announced.runReady).settle

/-- Spawn a sleeper and let tasks run: first what was ready before, then the sleeper. -/
def spawnSleeper (h : Host) (millis : Nat) (cancellable : Bool) : Host :=
  let announced := h.emit (.taskSpawned (if cancellable then "cancellable" else "plain"))
  let (id, opened) := if cancellable then announced.openScope else announced.fresh
  let ready := opened.runReady
  let spawned :=
    if cancellable && h.isShuttingDown then ready
    else ready.await id ⟨h.now.nanos + (Span.ofMillis millis).nanos⟩ (.sleep cancellable)
  spawned.settle

/-- Give up waiting for tasks at a time in milliseconds; what is due then fires later. -/
def giveUp (h : Host) (target : Nat) : Bool × Host :=
  (false, { h with clock := target, served := target }.emit (.shutdownTimedOut h.activeTasks))

/-- Let time pass until no tracked task is left, up to but not including a time in milliseconds.
Everything that is due at one time fires before the tasks are counted. -/
def drain (target : Nat) : Nat → Host → Bool × Host
  | 0, h => h.giveUp target
  | turns + 1, h =>
    if h.activeTasks = 0 then (true, { h with served := h.clock }.emit .shutdownDone)
    else
      match if h.clock < target then firstDue? (target - 1) h.tasks else none with
      | none => h.giveUp target
      | some task => drain target turns (h.fireDue (max h.clock task.dueMillis))

/-- Cancel the background scope and wait for its tasks up to a time: whether all ended. Without time
to wait nothing runs, unless the clock moved since tasks were last looked for. -/
def shutdown (h : Host) (millis : Nat) : Bool × Host :=
  let begun := h.emit (.shutdownBegun (Span.ofMillis millis).seconds h.activeTasks)
  let cancelled := begun.cancel .background
  if h.activeTasks = 0 then (true, cancelled.emit .shutdownDone)
  else if millis = 0 ∧ h.served = h.clock then cancelled.giveUp h.clock
  else
    let ready := cancelled.runReady
    ready.drain (h.clock + millis) (ready.tasks.length + 1)

end Steward.Host
