import Steward.Settings.Basic
import Steward.Fault

/-!
# Validation of settings

Settings are refused when they leave no room for anyone, promise more CPU than there is, or stop a
patrol. The checks stand in a fixed order, and the first that fails gives the message.
-/

namespace Steward

/-- The level of a name, in any case of its ASCII letters. -/
def Level.ofText? (text : String) : Option Level :=
  match String.ofList (text.toList.map Char.toLower) with
  | "trace" => some .trace
  | "debug" => some .debug
  | "info" => some .info
  | "warn" | "warning" => some .warn
  | "error" => some .error
  | _ => none

/-- What is said about a text that names no level. -/
def Level.refusal (text : String) : String :=
  "Invalid log level: " ++ text ++ ". Use trace, debug, info, warn, or error"

/-- The level of a name, or the fault of there being none. -/
def Level.parse (text : String) : Except Fault Level :=
  match ofText? text with
  | some level => .ok level
  | none => .error (.configuration (refusal text) none)

namespace SystemSettings

/-- The CPU floors of a full population. -/
def floorTotal (s : SystemSettings) : Binary64 := .ofNat s.maxUsers * s.minCpu

/-- The CPU that is left to users. -/
def available (s : SystemSettings) : Binary64 := 100 - s.reservedCpu

/-- What is wrong with the section, if anything. -/
def refusal? (s : SystemSettings) : Option String :=
  if s.maxUsers = 0 then some "max_concurrent_users cannot be 0"
  else if !(Binary64.le 0 s.reservedCpu && s.reservedCpu.lt 100) then
    some ("system_reserved_cpu must be within [0, 100), got " ++ s.reservedCpu.text)
  else if s.minCpu.le 0 || s.minMemory = 0 then some "fair-share floors must be positive"
  else if s.available.lt s.floorTotal then
    some ("max_concurrent_users x min_cpu_percent (" ++ s.floorTotal.text ++
      ") exceeds available CPU (" ++ s.available.text ++ ")")
  else if s.monitorSeconds = 0 ∨ s.guardSeconds = 0 then some "Monitor intervals cannot be 0"
  else if s.maxInactiveSeconds = 0 then some "max_inactive_time_secs cannot be 0"
  else none

end SystemSettings

/-- What is wrong with the section, if anything. -/
def SecuritySettings.refusal? (s : SecuritySettings) : Option String :=
  if s.maxPerUser = 0 ∨ s.maxPerAddress = 0 then some "Session caps cannot be 0"
  else if s.maxMessages = 0 ∨ s.maxBytes = 0 then some "Rate limits cannot be 0"
  else if s.sweepSeconds = 0 ∨ s.idleSeconds = 0 then some "Idle sweep settings cannot be 0"
  else none

/-- What is wrong with the section, if anything. -/
def ExecutionSettings.refusal? (s : ExecutionSettings) : Option String :=
  if s.maxWorkers = 0 then some "max_goroutines cannot be 0"
  else if s.maxExecutionSeconds = 0 then some "max_execution_time_secs cannot be 0"
  else if s.maxCommands = 0 ∨ s.maxLoops = 0 then some "Step ceilings cannot be 0"
  else none

/-- What is wrong with the section, if anything. -/
def LoggingSettings.refusal? (s : LoggingSettings) : Option String :=
  match Level.ofText? s.level with
  | some _ => none
  | none => some (Level.refusal s.level)

namespace Settings

/-- What is wrong with settings, if anything; the sections in their order. -/
def refusal? (s : Settings) : Option String :=
  s.system.refusal? <|> s.security.refusal? <|> s.execution.refusal? <|> s.logging.refusal?

/-- Settings that nothing is wrong with. -/
def validate (s : Settings) : Except Fault Settings :=
  match s.refusal? with
  | some message => .error (.configuration message none)
  | none => .ok s

end Settings

/-- Installing the log a second time fails, after the level was looked at. -/
def LoggingSettings.reinstall (s : LoggingSettings) : Fault :=
  match Level.parse s.level with
  | .error fault => fault
  | .ok _ =>
    let cause := "a global default trace dispatcher has already been set"
    .configuration ("Failed to install log subscriber: " ++ cause) (some cause)

end Steward
