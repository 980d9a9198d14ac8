import TypedClients.Command.Request
import TypedClients.Files.Session
import TypedClients.Run.Sources
import TypedClients.Settings.Loading

/-!
# The program

`Program.run` is the whole tool: from its arguments and its surroundings to the exit code, the
texts on both outputs, and the surroundings as they are afterwards.

Mirrors `_write_crash_log`, `generate_command`, `_report`, `init_command` and `main`. `main`
is the handler around all commands; here a command ends in an `Ending`, which has the exit
code that the handler picks.
-/

namespace TypedClients.Command

open Files (Path Session Workspace)
open Run (Results SourceResult)

/-- How the program ends, with the notices that were written on the way. -/
structure Ending where
  exit : Int
  printed : Printed
  log : List Notice
  workspace : Workspace

namespace Ending

/-- An ending without notices. -/
def plain (exit : Int) (printed : Printed) (w : Workspace) : Ending := ⟨exit, printed, [], w⟩

/-- An ending with something printed before. -/
def after (p : Printed) (e : Ending) : Ending := { e with printed := p ++ e.printed }

/-- An ending with notices before, which a console shows or not. -/
def noted (c : Console) (log : List Notice) (e : Ending) : Ending :=
  { e with printed := c.notices log ++ e.printed, log := log ++ e.log }

end Ending

/-- The exit code of a run in which a source failed, and of a crash. -/
def failureCode : Int := ErrorKind.exitCode .general

/-- The exit code after an interruption. -/
def interruptedCode : Int := 130

/-- Ends because of an interruption. -/
def interrupted (w : Workspace) : Ending :=
  .plain interruptedCode ⟨"", "\nCancelled.\n"⟩ w

/-! ## Failures -/

/-- Notes an unexpected failure in the data folder and gives the path of the note
(`_write_crash_log`). -/
def writeCrashLog (f : Failure) : Session Path := do
  let folder := (← Files.dataFolder).below "logs"
  Session.makeFolders folder
  let path := folder.below "crash.log"
  Session.writeText path (f.summary ++ "\n")
  return path

/-- Ends because of an unexpected failure. -/
def crash (f : Failure) (w : Workspace) : Ending :=
  match ((writeCrashLog f).result w).value with
  | (.ok path, w) =>
    .plain failureCode (Console.error ("Unexpected error. Debug log: " ++ path.text)) w
  | (.error g, w) => .plain failureCode (Console.error g.summary) w

/-- Ends because of a failure. A refusal has a message and a code of its own. -/
def fail (f : Failure) (w : Workspace) : Ending :=
  match f with
  | .refused cause => .plain cause.kind.exitCode (Console.error cause.message) w
  | f => crash f w

/-- Takes a step, shows its notices and goes on with its value. -/
def step {α : Type} (c : Console) (x : Session α) (w : Workspace)
    (next : α → Workspace → Ending) : Ending :=
  let result := x.result w
  Ending.noted c result.log <|
    match result.value with
    | (.ok a, w) => next a w
    | (.error f, w) => fail f w

/-! ## Making clients -/

/-- Settings for the sources that a command line asks for (the front of `generate_command`). A
single source replaces those of the settings and leaves earlier output of others alone. -/
def settingsFor (r : GenerateRequest) (s : Settings) : Except Failure Settings := do
  let given (x : Option String) : Option String := x.filter (· ≠ "")
  if (given r.file).isSome ∧ (given r.url).isSome then throw (.refused .bothFileAndUrl)
  let single (type : SourceType) (location : String) : Settings :=
    { s with sources := [⟨type, location, r.serviceName, none, false⟩], cleanOutput := false }
  let s ← match given r.file, given r.url with
    | some location, _ => pure (single .file location)
    | none, some location => pure (single .url location)
    | none, none =>
      if (given r.serviceName).isSome then throw (.refused .nameWithoutSource) else pure s
  if s.sources.isEmpty then throw (.refused .noSources)
  return { s with parallel := r.parallel.getD s.parallel }

/-- What is printed about one source. -/
def reportSource (c : Console) (planOnly : Bool) (r : SourceResult) : Printed :=
  match r.outcome with
  | .ok made =>
    c.success ((if planOnly then "Planned " else "Generated ") ++ made.serviceName ++ " from " ++
        r.source) ++
      .all (made.written.map fun path => c.debug ("Wrote " ++ path)) ++
      .data made.preview
  | .error _ => Console.error (r.source ++ ": " ++ Text.joinStrings "; " r.errors)

/-- What is printed about a run (`_report`). -/
def report (c : Console) (planOnly : Bool) (r : Results) : Printed :=
  if c.style = .json then Console.json r.toValue
  else
    .all (r.results.map (reportSource c planOnly)) ++
      c.table ["Total", "Successful", "Failed", "Skipped"]
        [[r.total, r.successful, r.failed, r.skipped].map Number.natText] ++
      (if planOnly && r.successful ≠ 0 then
        c.suggest "Run again without --dry-run to write the files"
      else .nothing)

/-- Settles what a command line asks for. -/
def settle (r : GenerateRequest) : Session Settings := do
  let s ← Settings.resolve ⟨r.configFile, r.outputDir, r.transport⟩
  Session.ofExcept (settingsFor r s)

/-- Makes clients (`generate_command`). Those of a parallel run are made in the order of their
documents, which is one of the orders that they may come in. -/
def generate (c : Console) (r : GenerateRequest) (w : Workspace) : Ending :=
  step c (settle r) w fun s w =>
    let target := (Path.ofString s.outputDir).below Run.clientsFolderName
    Ending.after (c.info ("Generating " ++ Number.natText s.sources.length ++ " source(s) into " ++
      target.text)) <|
    step c (Run.all s r.planOnly []) w fun results w =>
      .plain (if results.failed = 0 then 0 else failureCode) (report c r.planOnly results) w

/-! ## Starting a project -/

/-- Writes the settings file of a new project (`init_command`). -/
def start (c : Console) (location : String) (w : Workspace) : Ending :=
  step c (Settings.writeSample location) w fun path w =>
    .plain 0 (c.success ("Created " ++ path.text) ++
      c.suggest "Edit the sources list, then run: swaggen generate") w

/-! ## The whole program -/

namespace Program

/-- The version of the tool. -/
def version : String := "0.1.0"

/-- The text that reminds of how to use the tool. -/
def usage : String :=
  "Usage: swaggen [--version] [--json] [--plain] [--no-color] [-q] [-v] COMMAND [ARGS]...\n"

/-- Ends because the arguments have no form that the tool knows. -/
def misused (w : Workspace) : Ending :=
  .plain (ErrorKind.exitCode .usage) ⟨"", usage⟩ w

/-- Runs the tool (`main`). -/
def run (arguments : List String) (isTerminal : Bool) (w : Workspace) : Ending :=
  match Request.ofArguments Settings.fileName arguments with
  | none => misused w
  | some .version => .plain 0 (.data ("swaggen " ++ version)) w
  | some (.task output task) =>
    let c := Console.ofEnvironment output.style output.noColour output.quiet output.verbose
      isTerminal w.environment
    match task with
    | .generate r => generate c r w
    | .start location => start c location w

end Program

end TypedClients.Command
