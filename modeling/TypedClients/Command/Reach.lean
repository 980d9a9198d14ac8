import TypedClients.Command.Program

/-!
# What a command line reaches

The program is a function of its surroundings, of which it only ever looks at a small part:
some variables, the settings file, then the documents and the clients folders that the
settings name. Whoever runs it can ask here for that part and leave the rest of the disk
alone.

Mirrors no function: a session works on a tree that has been read before, so what a command
line can reach is read first.
-/

namespace TypedClients.Command

open Files (Path Workspace)

/-- The variables that the tool looks up. -/
def variableNames : List String :=
  ["HOME", "XDG_DATA_HOME", "NO_COLOR", "TERM", Settings.fileVariable, Settings.outputVariable]

/-- How much of what is at a path has to be known. -/
inductive Extent
  | entry
  | contents
  | everything
  deriving DecidableEq, Repr

/-- A path that is looked at or changed. -/
structure Reached where
  path : Path
  extent : Extent
  deriving DecidableEq, Repr

/-- The paths that count before the settings are known. -/
def Task.firstPaths (environment : List (String × String)) : Task → List Reached
  | .generate r =>
    (r.configFile.toList ++ (environment.lookup Settings.fileVariable).toList ++
      [Settings.fileName]).map fun text => ⟨Path.ofString text, .entry⟩
  | .start location => [⟨Path.ofString location, .entry⟩]

/-- The paths that a run with given settings reads from and writes to. -/
def settledPaths (s : Settings) : List Reached :=
  s.sources.flatMap fun source =>
    [⟨Run.clientsFolder s source, .everything⟩, ⟨Path.ofString source.location, .contents⟩]

/-- Whether a run with given settings reads standard input. -/
def readsInput (s : Settings) : Bool := s.sources.any (·.location = Document.standardInput)

/-- The task of a command line. -/
def task? (arguments : List String) : Option Task :=
  match Request.ofArguments Settings.fileName arguments with
  | some (.task _ task) => some task
  | _ => none

/-- The settings that a task works with, where they can be settled. -/
def Task.settings? (w : Workspace) : Task → Option Settings
  | .generate r => ((settle r).result w).value.1.toOption
  | .start _ => none

end TypedClients.Command
