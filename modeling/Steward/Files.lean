/-!
# Files

The files of a machine as far as settings need them: what stands at a path, and what becomes of a
text that is written there. A path is walked segment by segment; every step must start from a
directory.
-/

namespace Steward

/-- What stands at a path. -/
inductive Place where
  | absent
  | directory
  | file (text : String)
  deriving DecidableEq

namespace Place

/-- Whether anything stands at a path. -/
def isPresent : Place → Bool
  | .absent => false
  | _ => true

/-- The text of a file. -/
def text? : Place → Option String
  | .file text => some text
  | _ => none

end Place

/-- Why nothing can be read or written at a path. -/
inductive PathFault where
  | missing
  | notDirectory
  | isDirectory
  | nameTooLong
  | nulInName
  deriving DecidableEq, Repr

/-- What the system says about a path. -/
def PathFault.message : PathFault → String
  | .missing => "No such file or directory (os error 2)"
  | .notDirectory => "Not a directory (os error 20)"
  | .isDirectory => "Is a directory (os error 21)"
  | .nameTooLong => "File name too long (os error 36)"
  | .nulInName => "file name contained an unexpected NUL byte"

/-- A path as seen from a directory. -/
def joinPath (directory path : String) : String :=
  if path.startsWith "/" then path else directory ++ "/" ++ path

/-- The parts of a path between its slashes. -/
def pathParts (path : String) : List String := (path.toList.splitOn '/').map String.ofList

/-- The segments of a path; an empty one stands for nothing. -/
def pathSegments (path : String) : List String :=
  (pathParts path).filter fun segment => segment ≠ ""

/-- The files of a machine. -/
structure Files where
  /-- The texts of the files, by the segments of their paths. -/
  texts : List (List String × String) := []
  /-- Directories that exist even when no file stands in them. -/
  directories : List (List String) := []

namespace Files

/-- The bytes that one name may take. -/
def nameLimit : Nat := 255

/-- The bytes that a path and the mark of its end may take together. -/
def pathLimit : Nat := 4096

/-- Whether a directory stands at some segments; all that lies above a file is a directory. -/
def isDirectory (f : Files) (place : List String) : Bool :=
  place.isEmpty ||
    (f.directories ++ f.texts.map fun entry => entry.1.dropLast).any place.isPrefixOf

/-- What stands at some segments. -/
def standing (f : Files) (place : List String) : Place :=
  if f.isDirectory place then .directory
  else ((f.texts.lookup place).map Place.file).getD .absent

/-- Where a walk from a place leads. -/
def walk (f : Files) (place : List String) : List String → Except PathFault (List String)
  | [] => .ok place
  | segment :: rest =>
    match f.standing place with
    | .absent => .error .missing
    | .file _ => .error .notDirectory
    | .directory =>
      if nameLimit < segment.utf8ByteSize then .error .nameTooLong
      else if segment = "." then f.walk place rest
      else if segment = ".." then f.walk place.dropLast rest
      else f.walk (place ++ [segment]) rest

/-- Where an absolute path leads, whatever stands there. -/
def locate (f : Files) (path : String) : Except PathFault (List String) :=
  if path.contains '\x00' then .error .nulInName
  else if pathLimit ≤ path.utf8ByteSize then .error .nameTooLong
  else f.walk [] (pathSegments path)

/-- What stands at an absolute path; no file stands before a slash. -/
def place (f : Files) (path : String) : Place :=
  match f.locate path with
  | .error _ => .absent
  | .ok segments =>
    match f.standing segments with
    | .file text => if path.endsWith "/" then .absent else .file text
    | found => found

/-- Write a text to an absolute path: the files then. -/
def write (f : Files) (path text : String) : Except PathFault Files :=
  match f.locate path with
  | .error fault => .error fault
  | .ok segments =>
    if f.isDirectory segments || path.endsWith "/" then .error .isDirectory
    else .ok { f with texts := (segments, text) :: f.texts }

end Files

end Steward
