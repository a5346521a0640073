import Steward.CommandLine
import Steward.Host.Build
import Steward.Host.Tasks

/-!
# The program

Reads the machine's files and variables, answers the command line, and starts the host. The clock
outside is none of the library's business: a started host reports how it was assembled, and ends.
-/

namespace Steward

/-- The variables in a listing in which each ends with a NUL and has its value after a sign. -/
def listedVariables (listing : String) : Table String :=
  Table.ofList ((listing.splitOn "\x00").filterMap fun line =>
    match CommandLine.splitValue line.toList with
    | (name, some value) => some (name, value)
    | (_, none) => none)

/-- The names that settings and their sections have as variables. -/
def usualNames : List String :=
  let keys := (Settings.sections {}).flatMap fun (name, content) =>
    match content with
    | Datum.table pairs => name :: pairs.map fun pair => name ++ "__" ++ pair.1
    | _ => [name]
  keys.map fun key => Settings.usualMark ++ "__" ++ key.toUpper

/-- The variables that are set: all of them where the system lists them, or else those with a usual
name. -/
def readVariables : IO (Table String) := do
  try
    return listedVariables (← IO.FS.readFile "/proc/self/environ")
  catch _ =>
    let mut found : Table String := .empty
    for name in usualNames do
      if let some value ← IO.getEnv name then found := found.insert name value
    return found

/-- Look at the machine's files at the given paths. -/
def readPlaces (paths : List String) : IO (Table Place) := do
  let mut places : Table Place := .empty
  for path in paths do
    let place ← try
      pure (Place.file (← IO.FS.readFile path))
    catch _ => try
      discard <| IO.FS.realPath path
      pure Place.directory
    catch _ => pure Place.absent
    places := places.insert path place
  return places

/-- The paths at which settings may stand. -/
def pathsOfInterest (s : Surroundings) (args : List String) : List String :=
  let named :=
    match CommandLine.read args with
    | .request { config := some path, .. } =>
      (ancestors s.workingDirectory).map fun directory => joinPath directory path
    | _ => []
  named ++ s.usualPaths

end Steward

open Steward in
/-- Answer the command line. -/
def main (args : List String) : IO UInt32 := do
  let directory := toString (← IO.currentDir)
  let home := (← IO.getEnv "HOME").map fun home => joinPath home ".config"
  let configDirectory := (← IO.getEnv "XDG_CONFIG_HOME") <|> home
  let bare : Surroundings :=
    { place := fun _ => .absent, workingDirectory := directory, configDirectory,
      environment := ← readVariables }
  let places ← readPlaces (pathsOfInterest bare args)
  let surroundings := { bare with place := fun path => (places.find? path).getD .absent }
  match CommandLine.respond surroundings args with
  | .answer code output errors =>
    IO.print output
    IO.eprint errors
    return code.toUInt32
  | .start settings =>
    let sampler : Sampler := { sample := ⟨0, 0, 0, 0⟩ }
    match Host.assemble settings.policies sampler false with
    | .error overflow =>
      IO.eprintln overflow.message
      return 1
    | .ok host =>
      for event in host.spawnPatrols.journal.reverse do
        IO.println (event.level.name ++ " " ++ event.message)
      return 0
