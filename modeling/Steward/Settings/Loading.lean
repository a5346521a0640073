import Steward.Files
import Steward.Settings.Layers
import Steward.Settings.Text
import Steward.Settings.Validation
import Steward.Toml.Document

/-!
# Loading and saving settings

The settings file is the one that was named, or else the first of the usual places that exists. What
the file and the variables say is laid over the defaults, read as settings, and validated.
-/

namespace Steward

/-- Where settings are looked for. -/
structure Surroundings where
  /-- What stands at an absolute path. -/
  place : String → Place
  workingDirectory : String
  configDirectory : Option String
  environment : Table String

/-- What is said about a settings file. -/
inductive Notice where
  | loaded (path : String)
  | missing (path : String)
  deriving DecidableEq

namespace Notice

/-- The attention that a notice asks for. -/
def level : Notice → Level
  | .loaded _ => .info
  | .missing _ => .warn

/-- What a notice says. -/
def text : Notice → String
  | .loaded path => "Configuration loaded from " ++ path
  | .missing path => "Configuration file not found: " ++ path

end Notice

/-- The directories above and including one, innermost first. -/
def ancestors (directory : String) : List String :=
  let parts := pathParts directory
  (List.range parts.length).map fun n => "/".intercalate (parts.take (parts.length - n))

namespace Surroundings

/-- The file at a path; a relative path is tried in the working directory and those above it. -/
def findFile? (s : Surroundings) (path : String) : Option String :=
  if path.startsWith "/" then (s.place path).text?
  else (ancestors s.workingDirectory).findSome? fun directory =>
    (s.place (joinPath directory path)).text?

/-- The usual places of a settings file. -/
def usualPaths (s : Surroundings) : List String :=
  [joinPath s.workingDirectory "bgov.toml", joinPath s.workingDirectory "bgov/bgov.toml"] ++
    (s.configDirectory.map fun directory => joinPath directory "bgov/bgov.toml").toList

/-- The text of the settings file to use, if there is one, and what is said about it. A directory in
place of a file counts as an empty one. -/
def settingsFile (s : Surroundings) (named : Option String) : Option String × List Notice :=
  match named with
  | some path =>
    if (s.place (joinPath s.workingDirectory path)).isPresent then
      (s.findFile? path, [.loaded path])
    else (none, [.missing path])
  | none =>
    match s.usualPaths.find? fun path => (s.place path).isPresent with
    | some path => (s.findFile? path, [.loaded path])
    | none => (none, [])

end Surroundings

namespace Settings

/-- What lies in front of the names of variables, unless another word is chosen. -/
def usualMark : String := "BGOV"

/-- The fault of data that cannot be read as settings. -/
def unreadable (reason : String) : Fault :=
  .configuration ("Failed to extract configuration: " ++ reason) (some reason)

/-- The settings of a file's text and the variables, before validation. -/
def extract (file : Option String) (mark : String) (environment : Table String) :
    Except Fault Settings :=
  match (file.map fun text => Toml.parse? text.toList).getD (some []) with
  | none => .error (unreadable "the file is not well-formed")
  | some entries =>
    let layers := (toDatum {}).over (.table entries)
    match ofLayers? (layers.over (variableLayer (mark ++ "__") environment)) with
    | none => .error (unreadable "a value is not of its field's type")
    | some settings => .ok settings

/-- Load the settings, and say which file was used. -/
def load (s : Surroundings) (named : Option String) (mark : String) :
    Except Fault Settings × List Notice :=
  let (file, notices) := s.settingsFile named
  ((extract file mark s.environment).bind validate, notices)

/-- Save settings at an absolute path: the files then. -/
def save (s : Settings) (files : Files) (path : String) : Except Fault Files :=
  (files.write path s.toText).mapError fun cause =>
    Context.io.fault "Failed to write config file" cause.message

end Settings

end Steward
