import Steward.Settings.Loading

/-!
# The command line

The arguments name a settings file, ask for the effective settings, or ask about the program itself.
They are read from left to right, and the first that is no argument refuses them all.
-/

namespace Steward.CommandLine

/-- What the arguments ask for. -/
structure Request where
  config : Option String := none
  printConfig : Bool := false
  deriving DecidableEq

/-- One argument. -/
inductive Argument where
  /-- Name a settings file, here or in the next argument. -/
  | config (path : Option String)
  | printConfig
  | version
  | help
  /-- No further options. -/
  | stop
  | unknown
  deriving DecidableEq

/-- The value after the first equals sign of a text, if there is one, and what stands before. -/
def splitValue (cs : List Char) : String × Option String :=
  match cs.dropWhile (· ≠ '=') with
  | '=' :: value => (String.ofList (cs.takeWhile (· ≠ '=')), some (String.ofList value))
  | _ => (String.ofList cs, none)

/-- Read an argument. A short option takes its value from the same argument, if there is any. -/
def readArgument (arg : String) : Argument :=
  match arg.toList with
  | ['-', '-'] => .stop
  | '-' :: '-' :: long =>
    match splitValue long with
    | ("config", value) => .config value
    | ("print-config", none) => .printConfig
    | ("version", none) => .version
    | ("help", none) => .help
    | _ => .unknown
  | ['-', 'c'] => .config none
  | '-' :: 'c' :: '=' :: value => .config (some (String.ofList value))
  | '-' :: 'c' :: value => .config (some (String.ofList value))
  | '-' :: 'V' :: _ => .version
  | '-' :: 'h' :: _ => .help
  | _ => .unknown

/-- Whether an argument can be the value of the option before it. -/
def isValue (arg : String) : Bool := !arg.startsWith "-" || arg = "-"

/-- What all arguments come to. -/
inductive Reading where
  | request (request : Request)
  | version
  | help
  | refused
  deriving DecidableEq

/-- Name the settings file of a request, once and not by an empty name. -/
def Request.named? (r : Request) (path : String) : Option Request :=
  if r.config.isSome || path.isEmpty then none else some { r with config := some path }

/-- Read arguments, in the state of having to read a path next or not. -/
def readFrom (r : Request) (awaitsPath : Bool) : List String → Reading
  | [] => if awaitsPath then .refused else .request r
  | arg :: rest =>
    if awaitsPath then
      match if isValue arg then r.named? arg else none with
      | some named => readFrom named false rest
      | none => .refused
    else
      match readArgument arg with
      | .config none => readFrom r true rest
      | .config (some path) =>
        match r.named? path with
        | some named => readFrom named false rest
        | none => .refused
      | .printConfig =>
        if r.printConfig then .refused else readFrom { r with printConfig := true } false rest
      | .version => .version
      | .help => .help
      | .stop => if rest.isEmpty then .request r else .refused
      | .unknown => .refused

/-- Read the arguments of the program. -/
def read (args : List String) : Reading := readFrom {} false args

/-- What the program does. -/
inductive Response where
  /-- Write to the two streams and end with a code. -/
  | answer (code : Nat) (output errors : String)
  /-- Start the host. -/
  | start (settings : Settings)

/-- The name and the version of the program. -/
def versionText : String := "bgov 0.1.0\n"

/-- What the program is for and how to call it. -/
def helpText : String :=
  "Basic Governor - resource governor for a multi-user BASIC service\n\n" ++
    "Usage: bgov [OPTIONS]\n\nOptions:\n" ++
    "  -c, --config <CONFIG>  Path to configuration file\n" ++
    "      --print-config     Print the effective configuration as TOML and exit\n" ++
    "  -h, --help             Print help\n" ++
    "  -V, --version          Print version\n"

/-- What is said about arguments that are refused. -/
def usageText : String :=
  "error: unexpected arguments\n\nUsage: bgov [OPTIONS]\n\nFor more information, try '--help'.\n"

/-- A text whose further lines are indented. -/
def indented (indent text : String) : String := ("\n" ++ indent).intercalate (text.splitOn "\n")

/-- What is said about a fault that keeps the program from starting; a cause is listed below it. -/
def startFault (step : String) (fault : Fault) : String :=
  let causes :=
    match fault.cause? with
    | none => "    " ++ indented "    " fault.message ++ "\n"
    | some cause =>
      "    0: " ++ indented "       " fault.message ++ "\n" ++
        "    1: " ++ indented "       " cause ++ "\n"
  "Error: " ++ step ++ "\n\nCaused by:\n" ++ causes

/-- What the program does when it is called with arguments. -/
def respond (s : Surroundings) (args : List String) : Response :=
  match read args with
  | .refused => .answer 2 "" usageText
  | .version => .answer 0 versionText ""
  | .help => .answer 0 helpText ""
  | .request r =>
    match (Settings.load s r.config Settings.usualMark).1 with
    | .error fault => .answer 1 "" (startFault "loading configuration" fault)
    | .ok settings =>
      if r.printConfig then .answer 0 (settings.toText ++ "\n") "" else .start settings

end Steward.CommandLine
