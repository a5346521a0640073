import Steward.Allowance
import Steward.Event
import Steward.Table

/-!
# The host

The state of the host: its policies, the registered users, their runs, the transport sessions, the
scopes that were cancelled, and the tasks that wait for the clock. Every operation is a function
from a host to its result and the next host. Events are collected in a journal, newest first.
-/

namespace Steward

/-- A scope of cancellation. A registration opens a root; runs and workers live in children of it,
and cancelling a root cancels its children. -/
inductive Scope where
  | root (id : Nat)
  | child (root id : Nat)
  deriving DecidableEq, Repr

/-- The scope of the periodic tasks. -/
def Scope.background : Scope := .root 0

/-- A registered user. -/
structure User where
  /-- The root scope that this registration opened. -/
  registration : Nat
  allowance : Allowance
  estimatedCpu : Binary64 := 0
  estimatedMemory : Nat := 0
  /-- Worker slots taken under this registration. -/
  workers : Nat := 0
  /-- The clock at the last sign of life, in milliseconds. -/
  lastActivity : Nat
  deriving DecidableEq

/-- The scope that ends with a registration. -/
def User.scope (u : User) : Scope := .root u.registration

/-- A worker slot in use. -/
structure Permit where
  id : Nat
  user : String
  /-- The registration under which the slot was taken. -/
  registration : Nat
  deriving DecidableEq

/-- The scope of a worker. -/
def Permit.scope (p : Permit) : Scope := .child p.registration p.id

/-- A running program. -/
structure Run where
  id : Nat
  /-- The registration under which the program was started. -/
  registration : Nat
  program : String
  /-- The clock at the start, in milliseconds. -/
  startedAt : Nat
  deadline : Span
  limit : Span
  commands : Nat := 0
  loops : Nat := 0
  deriving DecidableEq

/-- The scope of a run. -/
def Run.scope (r : Run) : Scope := .child r.registration r.id

/-- What the starter of a run holds of it. -/
structure Handle where
  username : String
  program : String
  startedAt : Nat
  deadline : Span
  scope : Scope
  deriving DecidableEq

/-- A transport session. -/
structure Session where
  username : String
  address : String
  /-- Start of the current rate window. -/
  windowStart : Span
  windowMessages : Nat := 0
  windowBytes : Nat := 0
  totalMessages : Nat := 0
  totalBytes : Nat := 0
  connections : Nat := 1
  /-- The clock at the last sign of life, in milliseconds. -/
  lastActivity : Nat
  deriving DecidableEq

/-- What measures the host process: the next measurement, or why there is none. -/
structure Sampler where
  sample : Sample
  failure : Option String := none
  deriving DecidableEq

/-- Take a measurement. -/
def Sampler.measure (s : Sampler) : Except Fault Sample :=
  match s.failure with
  | some reason => .error (.internal reason)
  | none => .ok s.sample

/-- What a waiting task does when it is due. -/
inductive Work where
  /-- End the run of a user, unless it ended before. -/
  | watchDeadline (user : String) (run : Nat) (scope : Scope)
  /-- Run one cycle of a patrol and wait for the next. -/
  | patrol (patrol : Patrol)
  /-- End; a cancellable task also ends on shutdown. -/
  | sleep (cancellable : Bool)
  deriving DecidableEq

/-- A task that waits for the clock. -/
structure Task where
  id : Nat
  due : Span
  work : Work
  deriving DecidableEq

namespace Task

/-- Whether shutdown waits for a task. -/
def isTracked (t : Task) : Bool :=
  match t.work with
  | .watchDeadline .. => false
  | _ => true

/-- Whether shutdown ends a task. -/
def isCancellable (t : Task) : Bool :=
  match t.work with
  | .patrol _ => true
  | .sleep cancellable => cancellable
  | .watchDeadline .. => false

/-- The first whole millisecond at which a task is due. -/
def dueMillis (t : Task) : Nat := t.due.ceilMillis

end Task

/-- The state of the host. -/
structure Host where
  policies : Policies
  /-- Memory of the machine, in MB, as measured when the host was built. -/
  totalMemory : Nat
  /-- Whether tasks can wait for the clock. -/
  timers : Bool
  /-- The first point that the clock of the machine cannot hold. -/
  clockEnd : Span
  sampler : Sampler
  /-- Milliseconds since the host was built. -/
  clock : Nat := 0
  users : Table User := .empty
  runs : Table Run := .empty
  sessions : Table Session := .empty
  /-- Worker slots in use, under past registrations too. -/
  permits : List Permit := []
  /-- Users whom the last monitor cycle found idle, in increasing order. -/
  inactive : List String := []
  lastSample : Option Sample := none
  cancelled : List Scope := []
  /-- Waiting tasks, in the order in which they began to wait. -/
  tasks : List Task := []
  /-- Identities of what lives under the background scope, in its row. -/
  dependents : List Nat := []
  /-- The clock at which waiting tasks were last looked for. -/
  served : Nat := 0
  /-- The next unused identity; zero is that of the background scope. -/
  nextId : Nat := 1
  /-- Events, newest first. -/
  journal : List Event := []

namespace Host

/-- Report an event. -/
def emit (h : Host) (e : Event) : Host := { h with journal := e :: h.journal }

/-- Report several events in order. -/
def emitAll (h : Host) (events : List Event) : Host := events.foldl emit h

/-- An unused identity. -/
def fresh (h : Host) : Nat × Host := (h.nextId, { h with nextId := h.nextId + 1 })

/-- The clock as a span since the host was built. -/
def now (h : Host) : Span := .ofMillis h.clock

/-- The point a span from now, unless the clock cannot hold it. -/
def later? (h : Host) (length : Span) : Option Span := h.now.after? length h.clockEnd

/-- The clock as signs of life keep it, a word of milliseconds. -/
def stamp (h : Host) : Nat := min h.clock wordMax

/-- Whether a scope was cancelled, by itself or with its root. -/
def isCancelled (h : Host) : Scope → Bool
  | .root id => h.cancelled.contains (.root id)
  | .child root id => h.cancelled.contains (.child root id) || h.cancelled.contains (.root root)

/-- Cancel a scope. -/
def cancel (h : Host) (scope : Scope) : Host :=
  if h.cancelled.contains scope then h else { h with cancelled := scope :: h.cancelled }

/-- Have a task wait for a point of time. -/
def await (h : Host) (id : Nat) (due : Span) (work : Work) : Host :=
  { h with tasks := h.tasks ++ [⟨id, due, work⟩] }

/-- Remove a task. -/
def dropTask (h : Host) (id : Nat) : Host := { h with tasks := h.tasks.filter fun t => t.id ≠ id }

/-- The memory left to users, in MB. -/
def memoryPool (h : Host) : Nat := h.policies.system.memoryPool h.totalMemory

/-- A result and the host after it; naming something unknown is reported as a mistake of the
caller's. -/
def reportUnknown {α : Type} (operation key : String) :
    Except Fault α × Host → Except Fault α × Host
  | (.ok value, h) => (.ok value, h)
  | (.error fault, h) =>
    (.error fault, if fault.isNotFound then h.emit (.unknownResource operation key fault) else h)

/-- Repeat an operation a number of times, but not past a failure: how often it succeeded, and the
fault that stopped it. -/
def repeated (operation : Host → Except Fault Unit × Host) (passed : Nat) :
    Nat → Host → (Nat × Option Fault) × Host
  | 0, h => ((passed, none), h)
  | times + 1, h =>
    match operation h with
    | (.ok (), after) => repeated operation (passed + 1) times after
    | (.error fault, after) => ((passed, some fault), after)

end Host

end Steward
