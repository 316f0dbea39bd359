import VhdlLowering.Conversion

/-!
# Command line

The program has one command, which converts a file. Arguments are read from left to right, and the
first that is wrong decides. An option may be given once, before or after the path; two dashes end
the options. Asking for help or for the version ends the reading at once.
-/

namespace VhdlLowering
namespace CommandLine

/-- The arguments of a conversion. -/
structure Arguments where
  path : String
  settingsFile : Option String
  flags : Settings
deriving DecidableEq, Repr

/-- What help is asked for: the program, its command, or the help itself. -/
inductive Topic where
  | program
  | convert
  | help
deriving DecidableEq, Repr

inductive Request where
  | convert (a : Arguments)
  | version
  | help (topic : Topic)
deriving DecidableEq, Repr

inductive UsageError where
  | noCommand
  | unknownCommand (name : String)
  | unknownOption (name : String)
  | unexpectedValue (name : String)
  | missingValue (name : String)
  | emptyValue (name : String)
  | repeated (name : String)
  | unexpectedArgument (value : String)
  | missingPath
deriving DecidableEq, Repr

def UsageError.message : UsageError → String
  | noCommand => "a command is required"
  | unknownCommand name => "unknown command: " ++ name
  | unknownOption name => "unknown option: " ++ name
  | unexpectedValue name => "no value may be given for " ++ name
  | missingValue name => "a value is required for " ++ name
  | emptyValue name => "an empty value was given for " ++ name
  | repeated name => name ++ " may be given once only"
  | unexpectedArgument value => "unexpected argument: " ++ value
  | missingPath => "the path of a syntax tree is required"

inductive Flag where
  | hierarchyOnly
  | denyUnsupported
  | verbose
deriving DecidableEq, Repr

namespace Flag

def name : Flag → String
  | hierarchyOnly => "hierarchy-only"
  | denyUnsupported => "deny-unsupported"
  | verbose => "verbose"

def ofName? (s : String) : Option Flag :=
  [hierarchyOnly, denyUnsupported, verbose].find? fun f => f.name == s

/-- The settings with one flag on and all else off. -/
def settings : Flag → Settings
  | hierarchyOnly => ⟨true, false, false⟩
  | denyUnsupported => ⟨false, true, false⟩
  | verbose => ⟨false, false, true⟩

end Flag

/-- The arguments read so far. -/
structure Progress where
  path : Option String
  settingsFile : Option String
  flags : Settings
deriving DecidableEq, Repr

namespace Progress

def start : Progress := ⟨none, none, .default⟩

def addFlag (p : Progress) (f : Flag) : Except UsageError Progress :=
  if p.flags.or f.settings = p.flags then .error (.repeated f.name)
  else .ok { p with flags := p.flags.or f.settings }

def addFile (p : Progress) (value : String) : Except UsageError Progress :=
  if p.settingsFile.isSome then .error (.repeated "config")
  else if value.isEmpty then .error (.emptyValue "config")
  else .ok { p with settingsFile := some value }

def addPath (p : Progress) (value : String) : Except UsageError Progress :=
  if p.path.isSome then .error (.unexpectedArgument value)
  else if value.isEmpty then .error (.emptyValue "path")
  else .ok { p with path := some value }

def finish (p : Progress) : Except UsageError Request :=
  match p.path with
  | none => .error .missingPath
  | some path => .ok (.convert ⟨path, p.settingsFile, p.flags⟩)

end Progress

/-- One dash and more, but not a dash alone. -/
def isOption (arg : String) : Bool :=
  match arg.toList with
  | '-' :: _ :: _ => true
  | _ => false

/-- The name of a long option and its value after an equality sign. -/
def splitValue (cs : List Char) : String × Option String :=
  let name := cs.takeWhile (· != '=')
  (String.ofList name, match cs.drop name.length with
    | [] => none
    | _ :: value => some (String.ofList value))

/-- Reads the letters of short options; none if one of them asks for help. -/
def readLetters (p : Progress) : List Char → Except UsageError (Option Progress)
  | [] => .ok (some p)
  | 'v' :: cs => do readLetters (← p.addFlag .verbose) cs
  | 'h' :: _ => .ok none
  | c :: _ => .error (.unknownOption c.toString)

/-- Reads the arguments of a conversion. -/
def readArguments (p : Progress) : List String → Except UsageError Request
  | [] => p.finish
  | "--" :: rest => do (← rest.foldlM Progress.addPath p).finish
  | arg :: rest =>
    match arg.toList with
    | '-' :: '-' :: cs =>
      match splitValue cs with
      | ("help", none) => .ok (.help .convert)
      | ("config", some value) => do readArguments (← p.addFile value) rest
      | ("config", none) =>
        match rest with
        | [] => .error (.missingValue "config")
        | value :: rest =>
          if isOption value then .error (.missingValue "config")
          else do readArguments (← p.addFile value) rest
      | (name, value) =>
        match Flag.ofName? name, value with
        | some f, none => do readArguments (← p.addFlag f) rest
        | some f, some _ => .error (.unexpectedValue f.name)
        | none, _ => .error (.unknownOption name)
    | '-' :: c :: cs => do
      match ← readLetters p (c :: cs) with
      | some p => readArguments p rest
      | none => .ok (.help .convert)
    | _ => do readArguments (← p.addPath arg) rest

/-- Reads what help is asked for. -/
def readTopic : List String → Except UsageError Topic
  | [] => .ok .program
  | ["convert"] => .ok .convert
  | ["help"] => .ok .help
  | "convert" :: name :: _ | "help" :: name :: _ | name :: _ => .error (.unknownCommand name)

/-- Reads a command line. -/
def parse (args : List String) : Except UsageError Request :=
  match args with
  | [] => .error .noCommand
  | "convert" :: rest => readArguments .start rest
  | "help" :: rest => (readTopic rest).map .help
  | arg :: _ =>
    match arg.toList with
    | '-' :: 'h' :: _ => .ok (.help .program)
    | '-' :: 'V' :: _ => .ok .version
    | '-' :: _ =>
      if arg = "--help" then .ok (.help .program)
      else if arg = "--version" then .ok .version
      else .error (.unknownOption arg)
    | _ => .error (.unknownCommand arg)

/-- What a run of the program leaves behind. -/
structure Exit where
  code : Nat
  output : String
  errors : String
deriving DecidableEq, Repr

def versionText : String := "hdlconv 0.1.0\n"

def helpText : Topic → String
  | .program =>
    "VHDL package lowering tools\n\n" ++
    "Usage: hdlconv <COMMAND>\n\n" ++
    "Commands:\n" ++
    "  convert  Lower a JSON syntax tree and print the package outline\n" ++
    "  help     Print this message or the help of the given subcommand(s)\n\n" ++
    "Options:\n" ++
    "  -h, --help     Print help\n" ++
    "  -V, --version  Print version\n"
  | .convert =>
    "Lower a JSON syntax tree and print the package outline\n\n" ++
    "Usage: hdlconv convert [OPTIONS] <INPUT>\n\n" ++
    "Arguments:\n" ++
    "  <INPUT>  Path to the serialized design file tree\n\n" ++
    "Options:\n" ++
    "      --hierarchy-only    Only extract package and component names\n" ++
    "      --config <CONFIG>   Configuration file (defaults to ./hdlconv.toml when present)\n" ++
    "      --deny-unsupported  Fail when any construct was skipped as unsupported\n" ++
    "  -v, --verbose           Render every skipped construct\n" ++
    "  -h, --help              Print help\n"
  | .help =>
    "Print this message or the help of the given subcommand(s)\n\n" ++
    "Usage: hdlconv help [COMMAND]...\n\n" ++
    "Arguments:\n" ++
    "  [COMMAND]...  Print help for the subcommand(s)\n"

/-- A usage error is told; without a command there is help instead. -/
def UsageError.text : UsageError → String
  | noCommand => helpText .program
  | e => "error: " ++ e.message ++ "\n"

/-- The lines for what lies behind a failure; they are numbered if there are several. -/
def causeLines : List String → List String
  | [c] => ["    " ++ c]
  | cs => cs.zipIdx.map fun (c, i) => "    " ++ toString i ++ ": " ++ c

/-- The text of a failure, with what lies behind it. -/
def failureText (message : String) (causes : List String) : String :=
  let behind := if causes.isEmpty then [] else ["", "Caused by:"] ++ causeLines causes
  String.join ((("Error: " ++ message) :: behind).map (· ++ "\n"))

/-- Runs a conversion in a directory. A flag that is given counts as well as the setting. -/
def convert (render : Diagnostic → String) (d : Directory) (a : Arguments) : Exit :=
  match Settings.load d a.settingsFile "" with
  | .error failure => ⟨1, "", failureText failure.message [failure.cause]⟩
  | .ok settings =>
    let outcome := Conversion.run render d (settings.or a.flags) a.path
    match outcome.failure with
    | none => ⟨0, outcome.output, ""⟩
    | some failure =>
      ⟨1, outcome.output, failureText (failure.message render) failure.causes⟩

/-- Runs the program in a directory. -/
def execute (render : Diagnostic → String) (d : Directory) (args : List String) : Exit :=
  match parse args with
  | .error e => ⟨2, "", e.text⟩
  | .ok .version => ⟨0, versionText, ""⟩
  | .ok (.help topic) => ⟨0, helpText topic, ""⟩
  | .ok (.convert a) => convert render d a

/-- The paths that a run looks at. -/
def pathsOf (args : List String) : List String :=
  match parse args with
  | .ok (.convert a) => [a.settingsFile.getD (Directory.join "" Settings.fileName), a.path]
  | _ => []

end CommandLine
end VhdlLowering
