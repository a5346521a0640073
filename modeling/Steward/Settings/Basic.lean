import Steward.Policy
import Steward.Event

/-!
# Settings

What an operator may set, in four sections. The policies of the host follow from it.
-/

namespace Steward

/-- Population, pools and monitoring. -/
structure SystemSettings where
  maxUsers : Nat := 50
  reservedCpu : Binary64 := 25
  reservedMemory : Nat := 256
  minSystemMemory : Nat := 512
  monitorSeconds : Nat := 5
  maxInactiveSeconds : Nat := 1800
  guardSeconds : Nat := 2
  minCpu : Binary64 := 1
  minMemory : Nat := 32
  deriving DecidableEq

/-- Session caps, rate ceilings and the idle sweep. -/
structure SecuritySettings where
  maxPerUser : Nat := 3
  maxPerAddress : Nat := 5
  maxMessages : Nat := 60
  maxBytes : Nat := 10240
  sweepSeconds : Nat := 300
  idleSeconds : Nat := 1800
  deriving DecidableEq

/-- Ceilings of users and runs. -/
structure ExecutionSettings where
  maxWorkers : Nat := 20
  maxExecutionSeconds : Nat := 86400
  maxFileSize : Nat := 1048576
  maxFiles : Nat := 100
  maxCommands : Nat := 20000000
  maxLoops : Nat := 3000000
  deriving DecidableEq

/-- Where and how events are written. -/
structure LoggingSettings where
  level : String := "info"
  json : Bool := false
  file : Option String := none
  deriving DecidableEq

/-- The settings of the host. -/
structure Settings where
  system : SystemSettings := {}
  security : SecuritySettings := {}
  execution : ExecutionSettings := {}
  logging : LoggingSettings := {}
  deriving DecidableEq

namespace SystemSettings

/-- The fields in the order in which they are written. -/
def fields : List (Field SystemSettings) :=
  [Form.word.field "max_concurrent_users" maxUsers fun a s => { s with maxUsers := a },
    Form.number.field "system_reserved_cpu" reservedCpu fun a s => { s with reservedCpu := a },
    Form.word.field "system_reserved_ram_mb" reservedMemory
      fun a s => { s with reservedMemory := a },
    Form.word.field "min_system_ram_mb" minSystemMemory fun a s => { s with minSystemMemory := a },
    Form.word.field "resource_monitor_interval_secs" monitorSeconds
      fun a s => { s with monitorSeconds := a },
    Form.word.field "max_inactive_time_secs" maxInactiveSeconds
      fun a s => { s with maxInactiveSeconds := a },
    Form.word.field "memory_guard_interval_secs" guardSeconds
      fun a s => { s with guardSeconds := a },
    Form.number.field "min_cpu_percent" minCpu fun a s => { s with minCpu := a },
    Form.word.field "min_memory_mb" minMemory fun a s => { s with minMemory := a }]

end SystemSettings

namespace SecuritySettings

/-- The fields in the order in which they are written. -/
def fields : List (Field SecuritySettings) :=
  [Form.word.field "max_sessions_per_user" maxPerUser fun a s => { s with maxPerUser := a },
    Form.word.field "max_sessions_per_ip" maxPerAddress fun a s => { s with maxPerAddress := a },
    Form.word.field "rate_limit_messages" maxMessages fun a s => { s with maxMessages := a },
    Form.word.field "rate_limit_bandwidth" maxBytes fun a s => { s with maxBytes := a },
    Form.word.field "session_sweep_interval_secs" sweepSeconds
      fun a s => { s with sweepSeconds := a },
    Form.word.field "session_idle_timeout_secs" idleSeconds
      fun a s => { s with idleSeconds := a }]

end SecuritySettings

namespace ExecutionSettings

/-- The fields in the order in which they are written. -/
def fields : List (Field ExecutionSettings) :=
  [Form.word.field "max_goroutines" maxWorkers fun a s => { s with maxWorkers := a },
    Form.word.field "max_execution_time_secs" maxExecutionSeconds
      fun a s => { s with maxExecutionSeconds := a },
    Form.word.field "max_file_size_bytes" maxFileSize fun a s => { s with maxFileSize := a },
    Form.word.field "max_total_files" maxFiles fun a s => { s with maxFiles := a },
    Form.word.field "max_commands" maxCommands fun a s => { s with maxCommands := a },
    Form.word.field "max_loop_count" maxLoops fun a s => { s with maxLoops := a }]

end ExecutionSettings

namespace LoggingSettings

/-- The fields in the order in which they are written. -/
def fields : List (Field LoggingSettings) :=
  [Form.text.field "level" level fun a s => { s with level := a },
    Form.flag.field "json_format" json fun a s => { s with json := a },
    Form.optionalText.field "file_output" file fun a s => { s with file := a }]

end LoggingSettings

namespace Settings

/-- The sections, each of which is a record of its own; missing fields keep their defaults. -/
def fields (rule : RecordRule) : List (Field Settings) :=
  [(Record.form rule SystemSettings.fields {}).field "system" system
      fun a s => { s with system := a },
    (Record.form rule SecuritySettings.fields {}).field "security" security
      fun a s => { s with security := a },
    (Record.form rule ExecutionSettings.fields {}).field "execution" execution
      fun a s => { s with execution := a },
    (Record.form rule LoggingSettings.fields {}).field "logging" logging
      fun a s => { s with logging := a }]

/-- The sections of settings as data. -/
def sections (s : Settings) : List (String × Datum) :=
  (fields ⟨true, false⟩).map fun field => (field.key, field.write s)

/-- Settings as data. -/
def toDatum (s : Settings) : Datum := .table s.sections

/-- Settings of a data document: fields may be missing, but not too many. -/
def ofDocument? (d : Datum) : Option Settings :=
  Record.read? ⟨true, false⟩ (fields ⟨true, false⟩) {} d

/-- Settings of merged layers: fields may be missing, and items too many do not matter. -/
def ofLayers? (d : Datum) : Option Settings :=
  Record.read? ⟨true, true⟩ (fields ⟨true, true⟩) {} d

/-- Whether two settings are equal, numbers numerically: a NaN differs from itself. -/
def agrees (a b : Settings) : Bool :=
  let withoutNumbers (s : Settings) : Settings :=
    { s with system := { s.system with reservedCpu := 0, minCpu := 0 } }
  a.system.reservedCpu.agrees b.system.reservedCpu && a.system.minCpu.agrees b.system.minCpu &&
    withoutNumbers a = withoutNumbers b

/-- The policy of the system tier. -/
def systemPolicy (s : Settings) : SystemPolicy where
  maxUsers := s.system.maxUsers
  reservedCpu := s.system.reservedCpu
  reservedMemory := s.system.reservedMemory
  minSystemMemory := s.system.minSystemMemory
  minCpu := s.system.minCpu
  minMemory := s.system.minMemory
  maxWorkers := s.execution.maxWorkers
  maxExecutionTime := .ofSeconds s.execution.maxExecutionSeconds
  maxFileSize := s.execution.maxFileSize
  maxFiles := s.execution.maxFiles
  monitorInterval := .ofSeconds s.system.monitorSeconds
  maxInactiveTime := .ofSeconds s.system.maxInactiveSeconds

/-- The policy of the execution tier. -/
def executionPolicy (s : Settings) : ExecutionPolicy where
  maxCommands := s.execution.maxCommands
  maxLoops := s.execution.maxLoops
  guardInterval := .ofSeconds s.system.guardSeconds

/-- The policy of the session tier; the rate window is not a setting. -/
def sessionPolicy (s : Settings) : SessionPolicy where
  maxPerUser := s.security.maxPerUser
  maxPerAddress := s.security.maxPerAddress
  maxMessages := s.security.maxMessages
  maxBytes := s.security.maxBytes
  sweepInterval := .ofSeconds s.security.sweepSeconds
  idleTimeout := .ofSeconds s.security.idleSeconds

/-- The policies of the three tiers. -/
def policies (s : Settings) : Policies := ⟨s.systemPolicy, s.executionPolicy, s.sessionPolicy⟩

end Settings

end Steward
