import Steward.Host.Background
import Steward.Host.IdleSweep
import Steward.Host.MemoryGuard
import Steward.Host.Monitor

/-!
# The clock

Tasks wait for points of time, which the clock meets in whole milliseconds. When the clock reaches
the point of a task, the task fires: a deadline ends its run, a patrol makes its cycle and waits for
the next one, a sleeper ends. Tasks fire in the order of their milliseconds, and in one millisecond
the one that has waited longest fires first. A late patrol makes all the cycles that it is behind
before another task fires.
-/

namespace Steward.Host

/-- The period of a patrol. -/
def period (h : Host) : Patrol → Span
  | .monitor => h.policies.system.monitorInterval
  | .memoryGuard => h.policies.execution.guardInterval
  | .idleSweep => h.policies.session.sweepInterval

/-- One cycle of a patrol; a failing one is reported. -/
def patrolCycle (h : Host) : Patrol → Host
  | .monitor =>
    match h.monitorCycle with
    | (.ok _, after) => after
    | (.error fault, after) => after.emit (.patrolFailed .monitor fault)
  | .memoryGuard =>
    match h.guardCycle with
    | (.ok _, after) => after
    | (.error fault, after) => after.emit (.patrolFailed .memoryGuard fault)
  | .idleSweep => h.sweep.2

/-- How late a patrol may be without losing its rhythm. -/
def lateness : Span := .ofMillis 5

/-- The next point of a patrol that fires at a time: a period after the point it waited for, or
after now when it is late. -/
def nextDue (due now period : Span) : Span :=
  if due.nanos + lateness.nanos < now.nanos then ⟨now.nanos + period.nanos⟩
  else ⟨due.nanos + period.nanos⟩

/-- The task that fires first among those due by a time in milliseconds: the one due first, and of
several due in one millisecond the one that has waited longest. -/
def firstDue? (limit : Nat) : List Task → Option Task
  | [] => none
  | task :: rest =>
    match firstDue? limit rest with
    | none => if task.dueMillis ≤ limit then some task else none
    | some later => if task.dueMillis ≤ later.dueMillis then some task else some later

/-- Let a patrol make a cycle for the point it waited for, and for the points after it that are not
ahead of the clock; then it waits for the next. -/
def patrolFrom (id : Nat) (patrol : Patrol) : Nat → Span → Host → Host
  | 0, due, h => h.await id due (.patrol patrol)
  | cycles + 1, due, h =>
    let next := nextDue due h.now (h.period patrol)
    let after := h.patrolCycle patrol
    if next.ceilMillis ≤ h.clock then patrolFrom id patrol cycles next after
    else after.await id next (.patrol patrol)

/-- Let a task fire. -/
def fire (h : Host) (task : Task) : Host :=
  let rest := h.dropTask task.id
  match task.work with
  | .watchDeadline user run scope =>
    if rest.isCancelled scope then rest else rest.finishRun user run .timeout
  | .patrol patrol =>
    patrolFrom task.id patrol (h.now.nanos + 1 - task.due.nanos) task.due rest
  | .sleep _ => rest.closeScope task.id

/-- Enough steps for all tasks to fire until none is due by a time in milliseconds: every step moves
a point forward or removes it. -/
def firingBound (h : Host) (limit : Nat) : Nat :=
  total (h.tasks.map fun task => (Span.ofMillis limit).nanos + 1 - task.due.nanos)

/-- Let tasks fire that are due by a time in milliseconds, moving the clock up to each. -/
def fireUpTo (limit : Nat) : Nat → Host → Host
  | 0, h => h
  | steps + 1, h =>
    match firstDue? limit h.tasks with
    | none => h
    | some task =>
      fireUpTo limit steps ({ h with clock := max h.clock task.dueMillis }.fire task)

/-- Let everything fire that is due by a time in milliseconds. -/
def fireDue (h : Host) (limit : Nat) : Host := fireUpTo limit (h.firingBound limit) h

/-- Let run what need not wait for the clock: cancelled tasks end, and what was due when tasks were
last looked for fires. -/
def runReady (h : Host) : Host := h.endCancelled.fireDue h.served

/-- Let everything run that is ready or due now. -/
def settle (h : Host) : Host := { h.endCancelled.fireDue h.clock with served := h.clock }

/-- Move the clock; nothing fires. -/
def jump (h : Host) (millis : Nat) : Host := { h with clock := h.clock + millis }

/-- Move the clock at once; what became due fires at the new time. -/
def advance (h : Host) (millis : Nat) : Host := (h.jump millis).settle

/-- Let time pass; everything fires at its own time. -/
def sleep (h : Host) (millis : Nat) : Host :=
  let target := h.clock + millis
  { h.endCancelled.fireDue target with clock := target, served := target }

end Steward.Host
