import TypedClients.Command.Arguments
import TypedClients.Console.Basic

/-!
# What a command line asks for

The tool has two commands. Options about output come before the name of the command, its own
options after it.

Mirrors `main_callback` and `generate_command`.
-/

namespace TypedClients.Command

/-- What is asked of the command that makes clients. -/
structure GenerateRequest where
  configFile : Option String
  file : Option String
  url : Option String
  outputDir : Option String
  serviceName : Option String
  transport : Option String
  parallel : Option Bool
  planOnly : Bool
  deriving DecidableEq, Repr

/-- A command with what is asked of it. -/
inductive Task
  | generate (request : GenerateRequest)
  | start (location : String)
  deriving DecidableEq, Repr

/-- What is asked about output. -/
structure OutputRequest where
  style : Style
  noColour : Bool
  quiet : Bool
  verbose : Bool
  deriving DecidableEq, Repr

/-- What a command line asks for. -/
inductive Request
  | version
  | task (output : OutputRequest) (task : Task)
  deriving DecidableEq, Repr

/-! ## Options of all commands -/

/-- The options before the name of a command. -/
inductive CommonOption
  | version
  | json
  | plain
  | noColour
  | quiet
  | verbose
  deriving DecidableEq, Repr

/-- How the common options are written. -/
def commonForms : List (OptionForm CommonOption) :=
  [⟨.version, "--version", none, false⟩, ⟨.json, "--json", none, false⟩,
    ⟨.plain, "--plain", none, false⟩, ⟨.noColour, "--no-color", none, false⟩,
    ⟨.quiet, "--quiet", some 'q', false⟩, ⟨.verbose, "--verbose", some 'v', false⟩]

/-- What common options ask about output (`main_callback`). JSON wins over plain text. -/
def OutputRequest.ofArguments (a : Arguments CommonOption) : OutputRequest where
  style := if a.has .json then .json else if a.has .plain then .plain else .auto
  noColour := a.has .noColour
  quiet := a.has .quiet
  verbose := a.has .verbose

/-! ## Options of the commands -/

/-- The options of the command that makes clients. -/
inductive GenerateOption
  | config
  | file
  | url
  | output
  | name
  | transport
  | parallel
  | sequential
  | dryRun
  deriving DecidableEq, Repr

/-- How the options of the command that makes clients are written. -/
def generateForms : List (OptionForm GenerateOption) :=
  [⟨.config, "--config", some 'c', true⟩, ⟨.file, "--file", some 'f', true⟩,
    ⟨.url, "--url", some 'u', true⟩, ⟨.output, "--output", some 'o', true⟩,
    ⟨.name, "--name", some 'n', true⟩, ⟨.transport, "--transport", none, true⟩,
    ⟨.parallel, "--parallel", none, false⟩, ⟨.sequential, "--sequential", none, false⟩,
    ⟨.dryRun, "--dry-run", none, false⟩]

/-- Which of the two ways of running was asked for last. -/
def parallel? (a : Arguments GenerateOption) : Option Bool :=
  (a.options.reverse.find? fun o => o.key = .parallel || o.key = .sequential).map
    (·.key = .parallel)

/-- What is asked of the command that makes clients (the options of `generate_command`). -/
def GenerateRequest.ofArguments (a : Arguments GenerateOption) : GenerateRequest where
  configFile := a.value? .config
  file := a.value? .file
  url := a.value? .url
  outputDir := a.value? .output
  serviceName := a.value? .name
  transport := a.value? .transport
  parallel := parallel? a
  planOnly := a.has .dryRun

/-- The option of the command that starts a project. -/
inductive StartOption
  | path
  deriving DecidableEq, Repr

/-- How the option of the command that starts a project is written. -/
def startForms : List (OptionForm StartOption) := [⟨.path, "--path", some 'p', true⟩]

/-- Arguments that have to be options. -/
def optionsOnly {κ : Type} (forms : List (OptionForm κ)) (arguments : List String) :
    Option (Arguments κ) :=
  (Arguments.read forms false arguments).filter (·.others.isEmpty)

/-- The command with a name and what is asked of it. -/
def Task.ofArguments (defaultFile name : String) (arguments : List String) : Option Task :=
  if name = "generate" then
    (optionsOnly generateForms arguments).map fun a => .generate (.ofArguments a)
  else if name = "init" then
    (optionsOnly startForms arguments).map fun a => .start ((a.value? .path).getD defaultFile)
  else none

/-- What arguments ask for; `none` if they have no form that the tool knows. -/
def Request.ofArguments (defaultFile : String) (arguments : List String) : Option Request := do
  let a ← Arguments.read commonForms true arguments
  if arguments.isEmpty then none
  else if a.has .version then some .version
  else match a.others with
    | name :: rest => return .task (.ofArguments a) (← Task.ofArguments defaultFile name rest)
    | [] => none

end TypedClients.Command
