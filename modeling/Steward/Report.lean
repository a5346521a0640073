import Steward.Record
import Steward.Timestamp

/-!
# Reports

Snapshots of the host for its operators: the process as sampled, the registered users, the sessions,
and a user's run. A report is plain data that outlives the state it was taken from.
-/

namespace Steward

/-- A measurement of the host process. -/
structure Sample where
  processMemory : Nat
  processCpu : Binary64
  totalMemory : Nat
  workerTasks : Nat
  deriving DecidableEq

/-- A measurement as data. -/
def Sample.toDatum (s : Sample) : Datum :=
  .table
    [("process_memory_mb", .integer s.processMemory), ("process_cpu_percent", .real s.processCpu),
      ("total_memory_mb", .integer s.totalMemory), ("worker_tasks", .integer s.workerTasks)]

/-- A registered user in a report. -/
structure UserReport where
  username : String
  maxCpu : Binary64
  maxMemory : Nat
  estimatedCpu : Binary64
  estimatedMemory : Nat
  workers : Nat
  idleSeconds : Nat
  deriving DecidableEq

/-- A user's report as data. -/
def UserReport.toDatum (r : UserReport) : Datum :=
  .table
    [("username", .text r.username), ("max_cpu_percent", .real r.maxCpu),
      ("max_memory_mb", .integer r.maxMemory), ("estimated_cpu_percent", .real r.estimatedCpu),
      ("estimated_memory_mb", .integer r.estimatedMemory), ("active_workers", .integer r.workers),
      ("idle_secs", .integer r.idleSeconds)]

/-- The population and the pools. -/
structure SystemReport where
  maxUsers : Nat
  processMemory : Nat
  totalMemory : Nat
  availableMemory : Nat
  availableCpu : Binary64
  runs : Nat
  inactive : List String
  users : List UserReport
  sampled : Bool
  deriving DecidableEq

namespace SystemReport

/-- The worker slots taken by all users. -/
def workers (r : SystemReport) : Nat := total (r.users.map UserReport.workers)

/-- The population's report as data. -/
def toDatum (r : SystemReport) : Datum :=
  .table
    [("active_users", .integer r.users.length), ("max_concurrent_users", .integer r.maxUsers),
      ("process_memory_mb", .integer r.processMemory), ("total_memory_mb", .integer r.totalMemory),
      ("available_memory_mb", .integer r.availableMemory),
      ("available_cpu_percent", .real r.availableCpu), ("active_workers", .integer r.workers),
      ("active_executions", .integer r.runs), ("inactive_users", .list (r.inactive.map .text)),
      ("users", .list (r.users.map UserReport.toDatum)), ("sampled_at", .flag r.sampled)]

end SystemReport

/-- A session in a report. -/
structure SessionLine where
  session : String
  username : String
  address : String
  windowMessages : Nat
  windowBytes : Nat
  totalMessages : Nat
  totalBytes : Nat
  connections : Nat
  idleSeconds : Nat
  deriving DecidableEq

/-- A session's report as data. -/
def SessionLine.toDatum (r : SessionLine) : Datum :=
  .table
    [("session_id", .text r.session), ("username", .text r.username),
      ("ip_address", .text r.address), ("messages_in_window", .integer r.windowMessages),
      ("bytes_in_window", .integer r.windowBytes), ("total_messages", .integer r.totalMessages),
      ("total_bytes", .integer r.totalBytes), ("connection_count", .integer r.connections),
      ("idle_secs", .integer r.idleSeconds)]

/-- All sessions and their ceilings. -/
structure SessionReport where
  maxPerUser : Nat
  maxPerAddress : Nat
  maxMessages : Nat
  maxBytes : Nat
  sessions : List SessionLine
  deriving DecidableEq

namespace SessionReport

/-- The number of users that own a session. -/
def users (r : SessionReport) : Nat := (r.sessions.map SessionLine.username).eraseDups.length

/-- The number of addresses that sessions come from. -/
def addresses (r : SessionReport) : Nat := (r.sessions.map SessionLine.address).eraseDups.length

/-- The sessions' report as data. -/
def toDatum (r : SessionReport) : Datum :=
  .table
    [("active_sessions", .integer r.sessions.length), ("unique_users", .integer r.users),
      ("unique_ips", .integer r.addresses), ("max_sessions_per_user", .integer r.maxPerUser),
      ("max_sessions_per_ip", .integer r.maxPerAddress),
      ("rate_limit_messages", .integer r.maxMessages),
      ("rate_limit_bandwidth", .integer r.maxBytes),
      ("sessions", .list (r.sessions.map SessionLine.toDatum))]

end SessionReport

/-- A run in a report. The host keeps no calendar, so only a report from elsewhere says when the run
was started. -/
structure RunReport where
  username : String
  program : String
  startedAt : Option Timestamp
  elapsedMillis : Nat
  remainingMillis : Nat
  commands : Nat
  loops : Nat
  maxCommands : Nat
  maxLoops : Nat
  deriving DecidableEq

namespace RunReport

/-- A report of nothing, to be filled field by field. -/
def blank : RunReport := ⟨"", "", none, 0, 0, 0, 0, 0, 0⟩

/-- Timestamps, which a read report has to hold. -/
def timestampForm : Form (Option Timestamp) where
  write
    | some t => .text t.text
    | none => .null
  read? d := d.text?.bind fun text => (Timestamp.ofText? text).map some

/-- The fields in the order in which they are written. -/
def fields : List (Field RunReport) :=
  [Form.text.field "username" username fun a r => { r with username := a },
    Form.text.field "program" program fun a r => { r with program := a },
    timestampForm.field "started_at" startedAt fun a r => { r with startedAt := a },
    Form.word.field "elapsed_ms" elapsedMillis fun a r => { r with elapsedMillis := a },
    Form.word.field "remaining_ms" remainingMillis fun a r => { r with remainingMillis := a },
    Form.word.field "command_count" commands fun a r => { r with commands := a },
    Form.word.field "loop_count" loops fun a r => { r with loops := a },
    Form.word.field "max_commands" maxCommands fun a r => { r with maxCommands := a },
    Form.word.field "max_loop_count" maxLoops fun a r => { r with maxLoops := a }]

end RunReport

/-- What there is to say about a user's run. -/
inductive ExecutionReport where
  | idle (username : String)
  | running (run : RunReport)
  deriving DecidableEq

namespace ExecutionReport

/-- Whether the user has a run. -/
def isRunning : ExecutionReport → Bool
  | .idle _ => false
  | .running _ => true

/-- The program of the run. -/
def program? : ExecutionReport → Option String
  | .idle _ => none
  | .running run => some run.program

/-- The report in one line. -/
def summary : ExecutionReport → String
  | .idle _ => "no running program"
  | .running run =>
    run.program ++ " running for " ++ toString run.elapsedMillis ++ "ms (" ++
      toString run.commands ++ " statements, " ++ toString run.loops ++ " loops)"

/-- A run's report as a table tagged by its status. -/
def toDatum : ExecutionReport → Datum
  | .idle username => .table [("status", .text "not_running"), ("username", .text username)]
  | .running run =>
    .table (("status", .text "running") ::
      RunReport.fields.map fun field => (field.key, field.write run))

/-- The report of a status and the data that belongs to it, all of which has to be there. -/
def ofStatus? (status : String) (content : Datum) : Option ExecutionReport :=
  let rule : RecordRule := ⟨false, false⟩
  if status = "not_running" then
    (Record.read? rule [Form.text.field "username" id fun a _ => a] "" content).map .idle
  else if status = "running" then
    (Record.read? rule RunReport.fields .blank content).map .running
  else none

/-- The report of a tagged table, or of a list that begins with the tag. -/
def ofDatum? : Datum → Option ExecutionReport
  | .table entries =>
    match entries.lookup "status" with
    | some (.text status) => ofStatus? status (.table entries)
    | _ => none
  | .list (.text status :: items) => ofStatus? status (.list items)
  | _ => none

end ExecutionReport

end Steward
