import Steward.Record
import Steward.Binary64.Arithmetic

/-!
# Policies

The settings of the three tiers of the host: who may be registered and with what share, how a
program may run, and how a session may talk.
-/

namespace Steward

/-- Population, pools and per-user allowances. -/
structure SystemPolicy where
  maxUsers : Nat := 50
  reservedCpu : Binary64 := 25
  reservedMemory : Nat := 256
  minSystemMemory : Nat := 512
  minCpu : Binary64 := 1
  minMemory : Nat := 32
  maxWorkers : Nat := 20
  maxExecutionTime : Span := .ofSeconds 86400
  maxFileSize : Nat := 1048576
  maxFiles : Nat := 100
  monitorInterval : Span := .ofSeconds 5
  maxInactiveTime : Span := .ofSeconds 1800
  deriving DecidableEq

/-- Step ceilings of a run, and the period of the memory guard. -/
structure ExecutionPolicy where
  maxCommands : Nat := 20000000
  maxLoops : Nat := 3000000
  guardInterval : Span := .ofSeconds 2
  deriving DecidableEq

/-- Session caps, rate ceilings per window, and the idle sweep. -/
structure SessionPolicy where
  maxPerUser : Nat := 3
  maxPerAddress : Nat := 5
  maxMessages : Nat := 60
  maxBytes : Nat := 10240
  window : Span := .ofSeconds 60
  sweepInterval : Span := .ofSeconds 300
  idleTimeout : Span := .ofSeconds 1800
  deriving DecidableEq

namespace SystemPolicy

/-- The CPU left after the reservation, in percent. -/
def cpuPool (p : SystemPolicy) : Binary64 := (100 - p.reservedCpu).max 0

/-- The memory left after the reservation, in MB; a host smaller than the least system counts as
that. -/
def memoryPool (p : SystemPolicy) (hostMemory : Nat) : Nat :=
  max hostMemory p.minSystemMemory - p.reservedMemory

/-- The fields in the order in which they are written. -/
def fields : List (Field SystemPolicy) :=
  [Form.word.field "max_concurrent_users" maxUsers fun a p => { p with maxUsers := a },
    Form.number.field "reserved_cpu_percent" reservedCpu fun a p => { p with reservedCpu := a },
    Form.word.field "reserved_ram_mb" reservedMemory fun a p => { p with reservedMemory := a },
    Form.word.field "min_system_ram_mb" minSystemMemory fun a p => { p with minSystemMemory := a },
    Form.number.field "min_cpu_percent" minCpu fun a p => { p with minCpu := a },
    Form.word.field "min_memory_mb" minMemory fun a p => { p with minMemory := a },
    Form.word.field "max_workers" maxWorkers fun a p => { p with maxWorkers := a },
    Form.span.field "max_execution_time" maxExecutionTime
      fun a p => { p with maxExecutionTime := a },
    Form.word.field "max_file_size_bytes" maxFileSize fun a p => { p with maxFileSize := a },
    Form.word.field "max_total_files" maxFiles fun a p => { p with maxFiles := a },
    Form.span.field "monitor_interval" monitorInterval fun a p => { p with monitorInterval := a },
    Form.span.field "max_inactive_time" maxInactiveTime
      fun a p => { p with maxInactiveTime := a }]

end SystemPolicy

namespace ExecutionPolicy

/-- The fields in the order in which they are written. -/
def fields : List (Field ExecutionPolicy) :=
  [Form.word.field "max_commands" maxCommands fun a p => { p with maxCommands := a },
    Form.word.field "max_loop_count" maxLoops fun a p => { p with maxLoops := a },
    Form.span.field "memory_guard_interval" guardInterval fun a p => { p with guardInterval := a }]

end ExecutionPolicy

namespace SessionPolicy

/-- The fields in the order in which they are written. -/
def fields : List (Field SessionPolicy) :=
  [Form.word.field "max_sessions_per_user" maxPerUser fun a p => { p with maxPerUser := a },
    Form.word.field "max_sessions_per_ip" maxPerAddress fun a p => { p with maxPerAddress := a },
    Form.word.field "rate_limit_messages" maxMessages fun a p => { p with maxMessages := a },
    Form.word.field "rate_limit_bandwidth" maxBytes fun a p => { p with maxBytes := a },
    Form.span.field "window" window fun a p => { p with window := a },
    Form.span.field "sweep_interval" sweepInterval fun a p => { p with sweepInterval := a },
    Form.span.field "idle_timeout" idleTimeout fun a p => { p with idleTimeout := a }]

end SessionPolicy

/-- The policies of the three tiers. -/
structure Policies where
  system : SystemPolicy := {}
  execution : ExecutionPolicy := {}
  session : SessionPolicy := {}
  deriving DecidableEq

namespace Policies

/-- Partial data: a missing field keeps its default. -/
def partialRule : RecordRule := ⟨true, false⟩

/-- The fields in the order in which they are written. -/
def fields : List (Field Policies) :=
  [(Record.form partialRule SystemPolicy.fields {}).field "system" system
      fun a p => { p with system := a },
    (Record.form partialRule ExecutionPolicy.fields {}).field "execution" execution
      fun a p => { p with execution := a },
    (Record.form partialRule SessionPolicy.fields {}).field "session" session
      fun a p => { p with session := a }]

end Policies

end Steward
