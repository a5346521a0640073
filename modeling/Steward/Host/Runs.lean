import Steward.Host.Users
import Steward.Statement

/-!
# Runs

A user may run one program at a time. The program reports every statement, and that report is where
its deadline and its step ceilings are enforced; a waiting task also ends the run at its deadline.
-/

namespace Steward.Host

/-- The run of a user. -/
def run? (h : Host) (user : String) : Option Run := h.runs.find? user

/-- Whether a user has a run. -/
def isRunning (h : Host) (user : String) : Bool := h.runs.contains user

/-- Take a user's run out, cancel its scope and report its end. -/
def endRun (h : Host) (user : String) (run : Run) (reason : StopReason) : Host :=
  let ended := { h with runs := h.runs.erase user }.cancel run.scope
  ended.emit (.programStopped user run.program reason
    (h.now.since (.ofMillis run.startedAt)).millis run.commands run.loops)

/-- End a run, if it still is the run of its user. -/
def finishRun (h : Host) (user : String) (id : Nat) (reason : StopReason) : Host :=
  match h.run? user with
  | some run => if run.id = id then h.endRun user run reason else h
  | none => h

/-- Have a run ended at its deadline, where tasks can wait for the clock. -/
def watchDeadline (h : Host) (user : String) (run : Run) : Host :=
  if h.timers then
    let (id, numbered) := h.fresh
    numbered.await id run.deadline (.watchDeadline user run.id run.scope)
  else h.emit (.deadlineUnwatched user)

/-- Record a new run of a user who has none. A scope that was cancelled before takes no run. -/
def launch (h : Host) (user : String) (run : Run) : Except Fault Handle × Host :=
  match h.run? user with
  | some _ => (.error (.alreadyRunning user), h.emit (.programRunning user run.program))
  | none =>
    let numbered := { h with nextId := h.nextId + 1 }
    if numbered.isCancelled run.scope then (.error (.unknownUser user), numbered)
    else
      let started := { numbered with runs := h.runs.insert user run }.emit
        (.programStarted user run.program run.limit.seconds)
      (.ok ⟨user, run.program, run.startedAt, run.deadline, run.scope⟩,
        started.watchDeadline user run)

/-- Start a program for a registered user. A deadline that the clock cannot hold stops the
operation. -/
def start (h : Host) (user program : String) : Except Overflow (Except Fault Handle) × Host :=
  match h.user? user with
  | .error fault =>
    let (result, reported) := reportUnknown "user_limits" user (.error fault, h)
    (.ok result, reported)
  | .ok owner =>
    let touched := (h.touch user).2
    match touched.later? owner.allowance.maxExecutionTime with
    | none => (.error .deadline, touched)
    | some deadline =>
      let run : Run :=
        { id := touched.nextId, registration := owner.registration, program,
          startedAt := touched.clock, deadline, limit := owner.allowance.maxExecutionTime }
      let (result, launched) := touched.launch user run
      (.ok result, launched)

/-- End a user's run, if there is one, and tell whether there was. -/
def stopIfRunning (h : Host) (user : String) (reason : StopReason) : Bool × Host :=
  match h.run? user with
  | some run => (true, h.endRun user run reason)
  | none => (false, h)

/-- End a user's run at the owner's request. -/
def stop (h : Host) (user : String) : Except Fault Unit × Host :=
  reportUnknown "stop_basic_execution" user <|
    match h.stopIfRunning user .requested with
    | (true, stopped) => (.ok (), stopped)
    | (false, same) => (.error (.unknownRun user), same)

/-- End a user's run and unregister the user. -/
def retireUser (h : Host) (user : String) : Except Fault Unit × Host :=
  (h.stopIfRunning user .userUnregistered).2.unregisterUser user

/-- Count a statement of a run. A ceiling that it passes ends the run. -/
def countStatement (h : Host) (user : String) (run : Run) (statement : Statement) :
    Except Fault Unit × Host :=
  let policy := h.policies.execution
  let stepped := { run with commands := run.commands + 1 }
  if policy.maxCommands < stepped.commands then
    (.error (.limit .commands (.ofNat stepped.commands) (.ofNat policy.maxCommands)),
      h.endRun user stepped .commandLimit)
  else if !statement.isLoopOrJump then
    { h with runs := h.runs.insert user stepped }.touch user
  else
    let looped := { stepped with loops := stepped.loops + 1 }
    if policy.maxLoops < looped.loops then
      (.error (.limit .loops (.ofNat looped.loops) (.ofNat policy.maxLoops)),
        h.endRun user looped .loopLimit)
    else { h with runs := h.runs.insert user looped }.touch user

/-- Report a statement of a user's run. A failing check has ended the run. -/
def check (h : Host) (user : String) (statement : Statement) : Except Fault Unit × Host :=
  match h.run? user with
  | none => reportUnknown "check_basic_execution" user (.error (.unknownRun user), h)
  | some run =>
    if h.isCancelled run.scope then
      (.error (.unknownRun user), h.endRun user run .userUnregistered)
    else if run.deadline ≤ h.now then
      (.error (.timeout user run.limit), h.endRun user run .timeout)
    else h.countStatement user run statement

/-- What there is to say about a user's run. -/
def executionReport (h : Host) (user : String) : ExecutionReport :=
  match h.run? user with
  | none => .idle user
  | some run =>
    .running
      { username := user
        program := run.program
        startedAt := none
        elapsedMillis := (h.now.since (.ofMillis run.startedAt)).millis
        remainingMillis := (run.deadline.since h.now).millis
        commands := run.commands
        loops := run.loops
        maxCommands := h.policies.execution.maxCommands
        maxLoops := h.policies.execution.maxLoops }

/-- The time left to a run before its deadline. -/
def remaining (h : Host) (handle : Handle) : Span := handle.deadline.since h.now

end Steward.Host
