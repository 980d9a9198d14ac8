import TypedClients.Command.Reach
import TypedClients.Files.Changes

/-!
# The command line

Learns the surroundings that a command line reaches, runs the program on them, prints what it
prints and carries its changes out. There is no network here, so documents on the network
count as unreachable.
-/

namespace TypedClients

open Command (Extent Reached Task)
open Files (Entry Path Place Reply Tree Workspace)

/-- The name of a place for the operating system. -/
def Files.Place.name (place : Place) : String := (Path.ofPlace place).text

/-- What is at a place, links not followed. -/
def observe (place : Place) : IO (Option Entry) := do
  let name := Place.name place
  try
    match (← ((← IO.currentDir) / name).symlinkMetadata).type with
    | .dir => return some .folder
    | .file => return some (.file (← IO.FS.readBinFile name).toList)
    | .symlink => return some (.link (.ofString (← IO.FS.realPath name).toString))
    | .other => return none
  catch _ => return none

/-- The names of what a folder holds. -/
def namesIn (place : Place) : IO (List String) := do
  try
    return (← ((← IO.currentDir) / Place.name place).readDir).toList.map (·.fileName)
  catch _ => return []

/-- Learns what some parts lead to from a folder, and then as much as is asked for of what is
there. -/
partial def learn (extent : Extent) (t : Tree) (here : Place) : List String → IO Tree
  | [] => do
    if extent = .entry || t.get? here ≠ some .folder then return t
    let inner : Extent := if extent = .everything then .everything else .entry
    (← namesIn here).foldlM (fun t name => learn inner t here [name]) t
  | ".." :: rest => learn extent t here.dropLast rest
  | name :: rest => do
    let place := here ++ [name]
    match ← observe place with
    | none => return t
    | some (.link target) =>
      if target = Path.ofPlace place then return t
      else learn extent (t.set place (.link target)) [] (target.parts ++ rest)
    | some entry => learn extent (t.set place entry) place rest

/-- Learns what paths lead to. -/
def learnAll (w : Workspace) (reached : List Reached) : IO Workspace := do
  let tree ← reached.foldlM (fun t r => learn r.extent t (r.path.start w.folder)
    r.path.parts) w.tree
  return { w with tree }

/-- The text on standard input. -/
def standardInput : IO String := do
  return (String.fromUTF8? (← (← IO.getStdin).readBinToEnd)).getD ""

/-- The name of the system. -/
def systemName : IO String := do
  if (← IO.getEnv "OS") = some "Windows_NT" then return "Windows"
  else if (← observe ["System", "Library"]).isSome then return "Darwin"
  else return "Linux"

/-- The home folder that the system has on record for the user who runs the program. -/
def recordedHome : IO (Option String) := do
  try
    let status ← IO.FS.lines "/proc/self/status"
    let user := status.toList.findSome? fun line =>
      match line.splitOn "\t" with
      | "Uid:" :: user :: _ => some user
      | _ => none
    return (← IO.FS.lines "/etc/passwd").toList.findSome? fun line =>
      match line.splitOn ":" with
      | [_, _, number, _, _, home, _] => if some number = user then some home else none
      | _ => none
  catch _ => return none

/-- How deep schemas may lie inside one another for this program. -/
def nestingLimit : Nat := 300

/-- The surroundings that a task reaches. -/
def surroundingsOf (task : Option Task) : IO Workspace := do
  let environment ← Command.variableNames.filterMapM fun name => do
    return (← IO.getEnv name).map fun value => (name, value)
  let folder := (Path.ofString (← IO.currentDir).toString).parts
  let w : Workspace :=
    ⟨⟨[]⟩, folder, environment, ← recordedHome, ← systemName, "", [], [], nestingLimit⟩
  let home := ((environment.lookup "HOME").or w.userHome).toList.map fun s =>
    ⟨Path.ofString s, .entry⟩
  let w ← learnAll w (⟨Path.ofPlace folder, .entry⟩ :: home)
  let some task := task | return w
  let w ← learnAll w (task.firstPaths environment)
  let some settings := task.settings? w | return w
  let w ← learnAll w (Command.settledPaths settings)
  return { w with input := ← if Command.readsInput settings then standardInput else pure "" }

/-- Carries changes out: what is gone first, from the inside out, then folders, then files. -/
def carryOut (before after : Tree) : IO Unit := do
  let changes := before.changes after
  for place in changes.removed.mergeSort (fun p q => p.length ≥ q.length) do
    if before.get? place = some .folder then IO.FS.removeDir (Place.name place)
    else IO.FS.removeFile (Place.name place)
  for place in changes.folders do
    IO.FS.createDirAll (Place.name place)
  for (place, bytes) in changes.written do
    IO.FS.writeBinFile (Place.name place) ⟨bytes.toArray⟩

end TypedClients

/-- Runs the tool. -/
def main (arguments : List String) : IO UInt32 := do
  let stdout ← IO.getStdout
  let w ← TypedClients.surroundingsOf (TypedClients.Command.task? arguments)
  let ending := TypedClients.Command.Program.run arguments (← stdout.isTty) w
  TypedClients.carryOut w.tree ending.workspace.tree
  stdout.putStr ending.printed.out
  stdout.flush
  (← IO.getStderr).putStr ending.printed.err
  return UInt32.ofNat ending.exit.toNat
