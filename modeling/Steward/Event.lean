import Steward.Fault
import Steward.Report

/-!
# Events

What the host reports while it works. An event keeps what happened as data; its level, its message
and its named fields are functions of that.
-/

namespace Steward

/-- How much attention an event asks for. -/
inductive Level where
  | trace
  | debug
  | info
  | warn
  | error
  deriving DecidableEq, Repr

/-- The name of a level. -/
def Level.name : Level → String
  | .trace => "TRACE"
  | .debug => "DEBUG"
  | .info => "INFO"
  | .warn => "WARN"
  | .error => "ERROR"

/-- Why a run ended. -/
inductive StopReason where
  | requested
  | timeout
  | commandLimit
  | loopLimit
  | memoryPressure
  | userUnregistered
  deriving DecidableEq, Repr

namespace StopReason

/-- The words for a reason. -/
def label : StopReason → String
  | .requested => "requested"
  | .timeout => "timeout"
  | .commandLimit => "command limit"
  | .loopLimit => "loop limit"
  | .memoryPressure => "memory pressure"
  | .userUnregistered => "user unregistered"

/-- Whether the host ended the run against the wish of its owner. -/
def isForced : StopReason → Bool
  | .requested | .userUnregistered => false
  | _ => true

end StopReason

/-- The periodic tasks of the host. -/
inductive Patrol where
  | monitor
  | memoryGuard
  | idleSweep
  deriving DecidableEq, Repr

namespace Patrol

/-- The name of a patrol in messages. -/
def title : Patrol → String
  | .monitor => "System monitor"
  | .memoryGuard => "Memory guard"
  | .idleSweep => "Idle sweep"

/-- The name of a patrol as a task. -/
def taskName : Patrol → String
  | .monitor => "system-monitor"
  | .memoryGuard => "memory-guard"
  | .idleSweep => "idle-sweep"

end Patrol

/-- What the host reports. -/
inductive Event where
  /-- The memory floors of a full population exceed the pool. -/
  | memoryOvercommitted (pool floorTotal : Nat)
  | systemReady (totalMemory pool : Nat) (cpuPool : Binary64) (maxUsers : Nat)
  | stackAssembled (maxUsers pool maxPerUser maxPerAddress : Nat)
  | userRegistered (user : String) (population : Nat)
  | userUnregistered (user : String) (population : Nat)
  /-- A caller named something that does not exist. -/
  | unknownResource (operation key : String) (fault : Fault)
  | usageOverLimit (user : String) (fault : Fault)
  | userInactive (user : String) (limitSeconds : Nat)
  | sampled (population workers : Nat) (sample : Sample)
  | programRunning (user program : String)
  | programStarted (user program : String) (limitSeconds : Nat)
  /-- No timers: the run's deadline is seen by checks only. -/
  | deadlineUnwatched (user : String)
  | programStopped (user program : String) (reason : StopReason)
      (elapsedMillis commands loops : Nat)
  | memoryOverIdle (processMemory budget : Nat)
  | evicting (user program : String) (processMemory budget : Nat)
  | sessionRefreshed (session user : String) (connections : Nat)
  | userCapReached (session user : String) (count : Nat)
  | addressCapReached (session address : String) (count : Nat)
  | registrationRejected (session user : String) (fault : Fault)
  | userKnown (user : String)
  | sessionRegistered (session user address : String) (count : Nat)
  | sessionUnregistered (session user : String) (stopped last : Bool)
  | ownerMissing (session : String) (fault : Fault)
  | rateExceeded (session : String) (fault : Fault)
  | swept (removed timeoutSeconds : Nat)
  | patrolStarted (patrol : Patrol) (periodSeconds : Nat)
  | patrolFailed (patrol : Patrol) (fault : Fault)
  | patrolStopped (patrol : Patrol)
  | taskSpawned (task : String)
  | shutdownBegun (timeoutSeconds tasks : Nat)
  | shutdownDone
  | shutdownTimedOut (tasks : Nat)
  | status (system : SystemReport) (sessions : SessionReport)
  deriving DecidableEq

namespace Event

/-- The attention an event asks for. -/
def level : Event → Level
  | .memoryOvercommitted .. | .unknownResource .. | .usageOverLimit .. | .programRunning ..
  | .evicting .. | .userCapReached .. | .addressCapReached .. | .registrationRejected ..
  | .rateExceeded .. | .patrolFailed .. | .shutdownTimedOut .. => .warn
  | .programStopped _ _ reason _ _ _ => if reason.isForced then .warn else .info
  | .sampled .. | .deadlineUnwatched .. | .memoryOverIdle .. | .sessionRefreshed .. | .userKnown ..
  | .ownerMissing .. | .taskSpawned .. => .debug
  | _ => .info

/-- What an event says. -/
def message : Event → String
  | .memoryOvercommitted .. => "RAM floor at full population exceeds the available pool"
  | .systemReady .. => "System resource manager initialized"
  | .stackAssembled .. => "Governor stack assembled"
  | .userRegistered .. => "User registered"
  | .userUnregistered .. => "User unregistered"
  | .unknownResource .. => "Governed operation on unknown resource"
  | .usageOverLimit .. => "Resource usage over limit"
  | .userInactive .. => "User flagged as inactive"
  | .sampled .. => "System monitor sample"
  | .programRunning .. => "Program already running"
  | .programStarted .. => "Program started"
  | .deadlineUnwatched .. => "No runtime, deadline enforced on check only"
  | .programStopped _ _ reason _ _ _ =>
    if reason.isForced then "Program force-stopped" else "Program stopped"
  | .memoryOverIdle .. => "Memory over budget with no running programs"
  | .evicting .. => "Memory over budget, evicting oldest program"
  | .sessionRefreshed .. => "Session re-registered"
  | .userCapReached .. => "Session rejected: per-user cap reached"
  | .addressCapReached .. => "Session rejected: per-IP cap reached"
  | .registrationRejected .. => "Session rejected: user registration failed"
  | .userKnown .. => "User already registered by another session"
  | .sessionRegistered .. => "Session registered"
  | .sessionUnregistered .. => "Session unregistered"
  | .ownerMissing .. => "Session owner missing from system tier"
  | .rateExceeded .. => "Session rate limit exceeded"
  | .swept .. => "Idle sessions swept"
  | .patrolStarted patrol _ => patrol.title ++ " started"
  | .patrolFailed patrol _ => patrol.title ++ " cycle failed"
  | .patrolStopped patrol => patrol.title ++ " stopped"
  | .taskSpawned .. => "Spawning tracked task"
  | .shutdownBegun .. => "Initiating graceful shutdown"
  | .shutdownDone => "All background tasks completed"
  | .shutdownTimedOut .. => "Shutdown timeout reached"
  | .status .. => "Governor status"

/-- The named values that an event carries. -/
def fields : Event → List (String × Datum)
  | .memoryOvercommitted pool floorTotal =>
    [("pool_mb", .integer pool), ("floor_total_mb", .integer floorTotal)]
  | .systemReady totalMemory pool cpuPool maxUsers =>
    [("total_memory_mb", .integer totalMemory), ("available_memory_mb", .integer pool),
      ("available_cpu_percent", .real cpuPool), ("max_users", .integer maxUsers)]
  | .stackAssembled maxUsers pool maxPerUser maxPerAddress =>
    [("max_concurrent_users", .integer maxUsers), ("available_memory_mb", .integer pool),
      ("max_sessions_per_user", .integer maxPerUser),
      ("max_sessions_per_ip", .integer maxPerAddress)]
  | .userRegistered user population | .userUnregistered user population =>
    [("username", .text user), ("active_users", .integer population)]
  | .unknownResource operation key fault =>
    [("operation", .text operation), ("key", .text key), ("error", .text fault.message)]
  | .usageOverLimit user fault => [("username", .text user), ("error", .text fault.message)]
  | .userInactive user limitSeconds =>
    [("username", .text user), ("max_inactive_secs", .integer limitSeconds)]
  | .sampled population workers sample =>
    [("active_users", .integer population), ("worker_permits", .integer workers),
      ("worker_tasks", .integer sample.workerTasks),
      ("process_memory_mb", .integer sample.processMemory),
      ("process_cpu_percent", .real sample.processCpu)]
  | .programRunning user program => [("username", .text user), ("program", .text program)]
  | .programStarted user program limitSeconds =>
    [("username", .text user), ("program", .text program),
      ("max_execution_secs", .integer limitSeconds)]
  | .deadlineUnwatched user => [("username", .text user)]
  | .programStopped user program reason elapsedMillis commands loops =>
    [("username", .text user), ("program", .text program), ("reason", .text reason.label),
      ("elapsed_ms", .integer elapsedMillis), ("commands", .integer commands),
      ("loops", .integer loops)]
  | .memoryOverIdle processMemory budget =>
    [("process_memory_mb", .integer processMemory), ("budget_mb", .integer budget)]
  | .evicting user program processMemory budget =>
    [("username", .text user), ("program", .text program),
      ("process_memory_mb", .integer processMemory), ("budget_mb", .integer budget)]
  | .sessionRefreshed session user connections =>
    [("session_id", .text session), ("username", .text user),
      ("connections", .integer connections)]
  | .userCapReached session user count =>
    [("session_id", .text session), ("username", .text user), ("per_user", .integer count)]
  | .addressCapReached session address count =>
    [("session_id", .text session), ("ip_address", .text address), ("per_ip", .integer count)]
  | .registrationRejected session user fault =>
    [("session_id", .text session), ("username", .text user), ("error", .text fault.message)]
  | .userKnown user => [("username", .text user)]
  | .sessionRegistered session user address count =>
    [("session_id", .text session), ("username", .text user), ("ip_address", .text address),
      ("active_sessions", .integer count)]
  | .sessionUnregistered session user stopped last =>
    [("session_id", .text session), ("username", .text user), ("stopped_program", .flag stopped),
      ("last_session", .flag last)]
  | .ownerMissing session fault | .rateExceeded session fault =>
    [("session_id", .text session), ("error", .text fault.message)]
  | .swept removed timeoutSeconds =>
    [("removed", .integer removed), ("idle_timeout_secs", .integer timeoutSeconds)]
  | .patrolStarted _ periodSeconds => [("interval_secs", .integer periodSeconds)]
  | .patrolFailed _ fault => [("error", .text fault.message)]
  | .patrolStopped _ => []
  | .taskSpawned task => [("task", .text task)]
  | .shutdownBegun timeoutSeconds tasks =>
    [("timeout_secs", .integer timeoutSeconds), ("active_tasks", .integer tasks)]
  | .shutdownDone => []
  | .shutdownTimedOut tasks => [("active_tasks", .integer tasks)]
  | .status system sessions =>
    [("active_users", .integer system.users.length), ("max_users", .integer system.maxUsers),
      ("active_executions", .integer system.runs), ("active_workers", .integer system.workers),
      ("inactive_users", .integer system.inactive.length),
      ("process_memory_mb", .integer system.processMemory),
      ("available_memory_mb", .integer system.availableMemory),
      ("active_sessions", .integer sessions.sessions.length),
      ("unique_ips", .integer sessions.addresses)]

end Event

end Steward
