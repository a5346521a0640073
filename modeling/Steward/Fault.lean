import Steward.Decimal.Shortest
import Steward.Span

/-!
# Faults

Why a governed operation fails. A fault keeps what it is about; its message is one function.
-/

namespace Steward

/-- The ceilings that an operation can pass. -/
inductive LimitKind where
  | commands
  | loops
  | cpu
  | memory
  | messages
  | bandwidth
  | workers
  deriving DecidableEq, Repr

namespace LimitKind

/-- The word for a ceiling in messages. -/
def label : LimitKind → String
  | .commands => "commands"
  | .loops => "loops"
  | .cpu => "cpu"
  | .memory => "memory"
  | .messages => "messages"
  | .bandwidth => "bandwidth"
  | .workers => "workers"

/-- Whether a ceiling is that of a session, not of a run or a user. -/
def isSessionLimit : LimitKind → Bool
  | .messages | .bandwidth => true
  | _ => false

/-- The opening of the message about a passed ceiling. -/
def category (kind : LimitKind) : String :=
  if kind.isSessionLimit then "session rate limit exceeded" else "execution limit exceeded"

end LimitKind

/-- Why an operation failed. -/
inductive Fault where
  /-- No room for one more of something. -/
  | capacity (resource : String) (bound : Nat)
  /-- A ceiling of a run, a user or a session was passed. -/
  | limit (kind : LimitKind) (current bound : Binary64)
  /-- The user has a run already. -/
  | alreadyRunning (user : String)
  /-- The user is registered already. -/
  | alreadyRegistered (user : String)
  /-- There is no such user, session or run. -/
  | notFound (resource : String)
  /-- The run of a user passed its deadline. -/
  | timeout (user : String) (bound : Span)
  /-- Reading or writing failed. -/
  | io (cause : String)
  /-- The settings are of no use. -/
  | configuration (message : String) (cause : Option String)
  /-- The host itself failed. -/
  | internal (message : String)
  deriving DecidableEq

namespace Fault

/-- What a fault says. -/
def message : Fault → String
  | .capacity resource bound =>
    "capacity reached: " ++ resource ++ " (limit " ++ toString bound ++ ")"
  | .limit kind current bound =>
    kind.category ++ ": " ++ kind.label ++ " " ++ current.text ++ " > " ++ bound.text
  | .alreadyRunning user => "program already running for user " ++ user
  | .alreadyRegistered user => "user " ++ user ++ " is already registered"
  | .notFound resource => "Not found: " ++ resource
  | .timeout user bound =>
    "execution limit exceeded: " ++ user ++ " ran longer than " ++ toString bound.seconds ++ "s"
  | .io cause => "I/O error: " ++ cause
  | .configuration message _ => "Configuration error: " ++ message
  | .internal message => "Internal error: " ++ message

/-- Whether a fault is a lack of room. -/
def isCapacity : Fault → Bool
  | .capacity .. => true
  | _ => false

/-- Whether a fault is a passed ceiling or deadline. -/
def isLimitExceeded : Fault → Bool
  | .limit .. | .timeout .. => true
  | _ => false

/-- Whether a fault is about something unknown. -/
def isNotFound : Fault → Bool
  | .notFound _ => true
  | _ => false

/-- The ceiling that was passed. -/
def limitKind? : Fault → Option LimitKind
  | .limit kind _ _ => some kind
  | _ => none

/-- The cause that lies under a fault. -/
def cause? : Fault → Option String
  | .io cause => some cause
  | .configuration _ cause => cause
  | _ => none

/-- The fault of asking for a user who is not registered. -/
def unknownUser (user : String) : Fault := .notFound ("user " ++ user)

/-- The fault of asking for a session that does not exist. -/
def unknownSession (session : String) : Fault := .notFound ("session " ++ session)

/-- The fault of asking for the run of a user who has none. -/
def unknownRun (user : String) : Fault := .notFound ("execution for user " ++ user)

/-- The fault of a state that a failed task left locked. -/
def poisoned : Fault :=
  .internal "lock poisoned: poisoned lock: another task failed inside"

end Fault

/-- The ways of putting a failure into context. -/
inductive Context where
  /-- A failure inside the host. -/
  | plain
  /-- A failure inside the host, whose context is made up only then. -/
  | deferred
  /-- A failure to read or write. -/
  | io
  /-- A failure of the settings, which keeps its cause. -/
  | configuration
  deriving DecidableEq, Repr

namespace Context

/-- The fault of a cause in a context. -/
def fault (kind : Context) (context cause : String) : Fault :=
  match kind with
  | .plain | .deferred => .internal (context ++ ": " ++ cause)
  | .io => .internal ("I/O failure, " ++ context ++ ": " ++ cause)
  | .configuration => .configuration (context ++ ": " ++ cause) (some cause)

/-- A result whose failure is put into context. -/
def apply {α : Type} (kind : Context) (context : String) : Except String α → Except Fault α
  | .ok value => .ok value
  | .error cause => .error (kind.fault context cause)

/-- Whether a deferred context was made up. -/
def evaluated {α : Type} (kind : Context) : Except String α → Bool
  | .ok _ => false
  | .error _ => kind = .deferred

end Context

/-- Arithmetic that no machine word or clock can hold; the operation stops there. -/
inductive Overflow where
  | product
  | deadline
  deriving DecidableEq, Repr

namespace Overflow

/-- What the stopped operation says. -/
def message : Overflow → String
  | .product => "attempt to multiply with overflow"
  | .deadline => "overflow when adding duration to instant"

end Overflow

end Steward
