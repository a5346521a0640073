import Steward.Host.Build
import Steward.Host.Reports
import Steward.Host.Tasks
import Steward.Host.Workers

/-!
# Actions

Everything that callers, the clock and the machine can do to a host, as data. A history of a host is
a list of actions; what holds after every history holds of the host in use.
-/

namespace Steward

/-- One thing that is done to a host. -/
inductive Action where
  | registerUser (user : String)
  | unregisterUser (user : String)
  /-- End a user's run and unregister the user. -/
  | retireUser (user : String)
  | userScope (user : String)
  | userAllowance (user : String)
  | touch (user : String)
  | recordUsage (user : String) (cpu : Binary64) (memory : Nat)
  | checkUsage (user : String)
  | acquireWorker (user : String)
  | releaseWorker (permit : Permit)
  /-- The machine changes what the next measurement finds. -/
  | setSampler (sampler : Sampler)
  | monitorCycle
  | start (user program : String)
  | check (user : String) (statement : Statement)
  | stop (user : String)
  | stopIfRunning (user : String)
  | guardCycle
  | registerSession (session user address : String)
  | unregisterSession (session : String)
  | checkSession (session : String) (size : Nat)
  | sweep
  /-- A caller cancels a scope that was handed out. -/
  | cancelScope (scope : Scope)
  | childScope
  | releaseScope (scope : Scope)
  | spawnPatrols
  | spawnSleeper (millis : Nat) (cancellable : Bool)
  | shutdown (millis : Nat)
  | jump (millis : Nat)
  | advance (millis : Nat)
  | sleep (millis : Nat)
  | reportStatus

namespace Action

/-- Whether waiting tasks can run during an action. -/
def runsTasks : Action → Bool
  | .spawnPatrols | .spawnSleeper .. | .shutdown _ | .advance _ | .sleep _ => true
  | _ => false

/-- Whether an action leaves it to sessions to register users and to take them out. -/
def throughSessions : Action → Bool
  | .registerUser _ | .unregisterUser _ | .retireUser _ => false
  | _ => true

end Action

namespace Host

/-- Whether a scope can have been handed out. The background scope itself never is. -/
def hasIssued (h : Host) : Scope → Bool
  | .root id => 0 < id && id < h.nextId
  | .child root id => root < h.nextId && id < h.nextId

/-- The host after an action. -/
def perform (h : Host) : Action → Host
  | .registerUser user => (h.registerUser user).2
  | .unregisterUser user => (h.unregisterUser user).2
  | .retireUser user => (h.retireUser user).2
  | .userScope user => (h.userScope user).2
  | .userAllowance user => (h.userAllowance user).2
  | .touch user => (h.touch user).2
  | .recordUsage user cpu memory => (h.recordUsage user cpu memory).2
  | .checkUsage user => (h.checkUsage user).2
  | .acquireWorker user => (h.acquireWorker user).2
  | .releaseWorker permit => h.releaseWorker permit
  | .setSampler sampler => { h with sampler }
  | .monitorCycle => h.monitorCycle.2
  | .start user program => (h.start user program).2
  | .check user statement => (h.check user statement).2
  | .stop user => (h.stop user).2
  | .stopIfRunning user => (h.stopIfRunning user .requested).2
  | .guardCycle => h.guardCycle.2
  | .registerSession session user address => (h.registerSession session user address).2
  | .unregisterSession session => (h.unregisterSession session).2
  | .checkSession session size => (h.checkSession session size).2
  | .sweep => h.sweep.2
  | .cancelScope scope => if h.hasIssued scope then h.cancel scope else h
  | .childScope => h.childScope.2
  | .releaseScope scope => h.releaseScope scope
  | .spawnPatrols => h.spawnPatrols
  | .spawnSleeper millis cancellable => h.spawnSleeper millis cancellable
  | .shutdown millis => (h.shutdown millis).2
  | .jump millis => h.jump millis
  | .advance millis => h.advance millis
  | .sleep millis => h.sleep millis
  | .reportStatus => h.reportStatus

/-- The host after some actions in order. -/
def performAll (h : Host) : List Action → Host
  | [] => h
  | action :: rest => (h.perform action).performAll rest

/-- Whether a property holds before, between and after some actions. -/
def Throughout (p : Host → Prop) (h : Host) : List Action → Prop
  | [] => p h
  | action :: rest => p h ∧ Throughout p (h.perform action) rest

/-- A host that was just built, from policies or from settings, on a machine with any clock. -/
def IsBuilt (policies : Policies) (sampler : Sampler) (timers : Bool) (h : Host) : Prop :=
  ∃ clockEnd, build policies sampler timers clockEnd = .ok h ∨
    assemble policies sampler timers clockEnd = .ok h

/-- A host that was built from policies, where nothing else is said about the machine. -/
theorem IsBuilt.of_build {policies : Policies} {sampler : Sampler} {timers : Bool} {h : Host}
    (hbuilt : build policies sampler timers = .ok h) : IsBuilt policies sampler timers h :=
  ⟨_, .inl hbuilt⟩

/-- A host that was built and then used in any way. -/
def IsReachable (h : Host) : Prop :=
  ∃ policies sampler timers start actions,
    IsBuilt policies sampler timers start ∧ h = start.performAll actions

end Host

end Steward
