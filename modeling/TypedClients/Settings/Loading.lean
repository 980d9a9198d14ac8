import TypedClients.Files.Session
import TypedClients.Json.Reader
import TypedClients.Settings.Basic

/-!
# The settings in force

Settings come from a file: the one named on the command line, else the one that the
environment names, else the one in the working folder, if there is one. The environment and
then the command line replace single fields.

Mirrors `find_project_config`, `load_project_config`, `resolve_config` and
`write_sample_config`. `_atomic_write` makes a file beside the one it replaces; that file is
not part of the tree.
-/

namespace TypedClients.Settings

open Files (Path Session)

/-- The name of the settings file of a project. -/
def fileName : String := "swaggen.json"

/-- The variable that names the settings file. -/
def fileVariable : String := "SWAGGEN_CONFIG"

/-- The variable that names the output folder. -/
def outputVariable : String := "SWAGGEN_OUTPUT_DIR"

/-- What the command line says about settings. -/
structure Given where
  file : Option String
  outputDir : Option String
  transport : Option String
  deriving DecidableEq, Repr

/-- The path of a settings file that has to exist. -/
def requireFile (text : String) (refusal : String → Cause) : Session Path := do
  let path := Path.ofString text
  if !(← Session.hasFile path) then Session.refuse (refusal path.text)
  return path

/-- The path of the settings file (`find_project_config`). -/
def find (given : Option String) : Session (Option Path) := do
  match given with
  | some text => return some (← requireFile text .configNotFound)
  | none =>
    match ← Session.nonempty? fileVariable with
    | some text => return some (← requireFile text .environmentConfigNotFound)
    | none =>
      let path := (← Session.workFolder).below fileName
      return if ← Session.hasFile path then some path else none

/-- The settings that a text holds. -/
def ofText (path text : String) : Except Failure Settings :=
  match Json.read text with
  | .error e => .error (.refused (.configInvalid path (.unreadable e)))
  | .ok v =>
    match Settings.ofValue v with
    | .ok s => .ok s
    | .error (.invalid m) => .error (.refused (.configInvalid path (.misfit m)))
    | .error e => .error e

/-- The settings in a file (`load_project_config`). -/
def load (path : Path) : Session Settings := do
  let text ← (Session.readText path).refusing fun f => .configUnreadable path.text f.message
  Session.ofExcept (ofText path.text text)

/-- The settings in force (`resolve_config`). -/
def resolve (given : Given) : Session Settings := do
  let settings ← match ← find given.file with
    | some path => do
      Session.debug .settings ("Using config " ++ path.text)
      load path
    | none => pure Settings.default
  let fromVariable ← Session.nonempty? outputVariable
  return { settings with
    outputDir := (given.outputDir.or fromVariable).getD settings.outputDir
    transport := given.transport.getD settings.transport }

/-- Writes the settings a new project starts from and gives the path (`write_sample_config`). -/
def writeSample (location : String) : Session Path := do
  let path := Path.ofString location
  if ← Session.hasAny path then Session.refuse (.configExists path.text)
  Session.makeFolders path.parent
  Session.writeText path Settings.sample.fileText
  return path

end TypedClients.Settings
