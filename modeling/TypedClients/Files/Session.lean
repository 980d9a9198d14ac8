import TypedClients.Files.Tree
import TypedClients.Report.Log
import TypedClients.Text.Blank
import TypedClients.Text.Sorted
import TypedClients.Text.Surrogate

/-!
# Work on files

A `Session α` is a step of the tool that reads and changes its surroundings: a tree of files,
the environment, standard input and what the network answers. It reports as it goes and may
fail; a failed step keeps the changes it had made.

* `outcome_bind`: the second of two steps goes on where the first left the surroundings.
* `outcome_attempt`: an attempt never fails, and changes what its step changes.

Mirrors `clean_directory`, `get_data_dir` and `_is_xdg_platform`. A handler around a call on
the disk is an `attempt` here.
-/

namespace TypedClients.Files

/-- What comes of asking the network for a document; the body is what the bytes of an answer
are as UTF-8. -/
inductive Reply
  | answered (status : Int) (contentType body : String)
  | failed (problem : String)
  deriving DecidableEq, Repr

/-- The surroundings of the tool. -/
structure Workspace where
  tree : Tree
  /-- The place of the working folder. -/
  folder : Place
  environment : List (String × String)
  /-- The home folder that the system has on record for the user. -/
  userHome : Option String
  system : String
  input : String
  replies : List (String × Reply)
  /-- The steps of a removal that the system does not allow, and why: for a folder that may
  not be read or written, a file that is in use, and the like. -/
  refusals : List (Removal × SystemProblem)
  /-- How deep schemas may lie inside one another before there is no room left to follow them. -/
  nestingLimit : Nat

/-- A step that works on files. -/
abbrev Session (α : Type) := ExceptT Failure (StateT Workspace Logged) α

namespace Session

variable {α : Type}

/-- A step that leaves files alone. -/
def checked (x : Checked α) : Session α :=
  ExceptT.mk fun w => do return (← x.run, w)

/-- A step that only may fail. -/
def ofExcept (x : Except Failure α) : Session α := checked (Checked.ofExcept x)

/-- Refuses to go on. -/
def refuse (cause : Cause) : Session α := throw (.refused cause)

/-- Writes a notice for those who follow each step. -/
def debug (origin : Origin) (text : String) : Session Unit := checked (Checked.debug origin text)

/-- Writes a notice about something dropped or doubtful. -/
def warn (origin : Origin) (text : String) : Session Unit := checked (Checked.warn origin text)

/-- The outcome of a step, whether it fails or not. -/
def attempt (x : Session α) : Session (Except Failure α) :=
  ExceptT.mk fun w => do
    let (r, w) ← x.run w
    return (.ok r, w)

/-- Everything that comes of a step. -/
def result (x : Session α) (w : Workspace) : Logged (Except Failure α × Workspace) := x.run w

/-- What a step gives and the surroundings it leaves. -/
def outcome (x : Session α) (w : Workspace) : Except Failure α × Workspace := (x.result w).value

theorem outcome_pure (a : α) (w : Workspace) : outcome (pure a) w = (.ok a, w) := rfl

theorem outcome_bind {β : Type} (x : Session α) (f : α → Session β) (w : Workspace) :
    outcome (x >>= f) w =
      match outcome x w with
      | (.ok a, w) => outcome (f a) w
      | (.error e, w) => (.error e, w) := by
  unfold outcome result
  simp only [ExceptT.run, bind, ExceptT.bind, ExceptT.mk, StateT.bind, Logged.bind]
  generalize x w = r
  obtain ⟨⟨e | a, v⟩, _⟩ := r <;> rfl

theorem outcome_attempt (x : Session α) (w : Workspace) :
    outcome x.attempt w = (.ok (outcome x w).1, (outcome x w).2) := rfl

/-! ## The environment -/

/-- The surroundings. -/
def surroundings : Session Workspace := fun w => pure (.ok w, w)

/-- The value of a variable. -/
def environment? (name : String) : Session (Option String) := do
  return (← surroundings).environment.lookup name

/-- The value of a variable unless it is empty. -/
def nonempty? (name : String) : Session (Option String) := do
  return (← environment? name).filter (· ≠ "")

/-- The path of the home folder: what the variable says, or else what is on record. A text
that begins with a tilde stands for a home folder itself, so that it tells nothing. -/
def home : Session Path := do
  match (← environment? "HOME").or (← surroundings).userHome with
  | some s =>
    if s.toList.head? = some '~' then throw (.mishap .noHome)
    else return if s.toList.all (· = '/') then ⟨1, []⟩ else Path.ofString s
  | none => throw (.mishap .noHome)

/-- The path of the working folder. -/
def workFolder : Session Path := do return Path.ofPlace (← surroundings).folder

/-- All that is left on standard input, which can be read only once. -/
def takeInput : Session String := fun w => pure (.ok w.input, { w with input := "" })

/-! ## Looking at files -/

/-- Fails with a problem of the file system. -/
def blame (problem : SystemProblem) (p : Path) : Session α := throw (.system ⟨problem, p.text⟩)

/-- Why a file system cannot be asked about a path, if it cannot. -/
def objection? (p : Path) : Option Mishap :=
  match Text.Surrogate.firstRun? (!Text.Surrogate.isByte ·) p.text.toList with
  | some (before, halves) => some (.notEncodable before halves)
  | none => if p.hasNull then some .wrongValue else none

/-- Lets only paths pass that a file system can be asked about. -/
def requireAskable (p : Path) : Session Unit := do
  match objection? p with
  | some m => throw (.mishap m)
  | none => return ()

/-- What a path leads to. A name that is too long is an error here; all else that is in the
way means that nothing is there. -/
def at? (p : Path) : Session (Option Entry) := do
  let w ← surroundings
  if (objection? p).isSome then return none
  match w.tree.locate false w.folder p with
  | .ok place => return w.tree.get? place
  | .error .nameTooLong => blame .nameTooLong p
  | .error _ => return none

/-- Whether a path leads to anything. -/
def hasAny (p : Path) : Session Bool := do return (← at? p).isSome

/-- Whether a path leads to a folder. -/
def hasFolder (p : Path) : Session Bool := do return (← at? p) = some .folder

/-- Whether a path leads to a file. -/
def hasFile (p : Path) : Session Bool := do
  match ← at? p with
  | some (.file _) => return true
  | _ => return false

/-- The text of a file, with every line end as a line feed. -/
def readText (p : Path) : Session String := do
  requireAskable p
  let w ← surroundings
  match w.tree.locate false w.folder p with
  | .error problem => blame problem p
  | .ok place =>
    match w.tree.get? place with
    | some (.file bytes) =>
      match String.fromUTF8? ⟨bytes.toArray⟩ with
      | some s => return String.ofList (Text.normaliseLineEnds s.toList)
      | none => throw (.mishap .notUnicode)
    | some _ => blame .isADirectory p
    | none => blame .missing p

/-- A step whose problems with files are refused in other words. -/
def refusing (words : SystemFailure → Cause) (x : Session α) : Session α := do
  match ← attempt x with
  | .ok a => return a
  | .error (.system f) => refuse (words f)
  | .error e => throw e

/-- The paths of what a folder holds, sorted by name. -/
def contents (p : Path) : Session (List Path) := do
  let w ← surroundings
  match w.tree.locate false w.folder p with
  | .error problem => blame problem p
  | .ok place =>
    return (Text.sortedBy Text.codePoints (w.tree.names place)).map fun name =>
      ⟨p.slashes, p.parts ++ [name]⟩

/-- The place that a path means. There is none if the links that are left there lead on
forever. -/
def resolve (p : Path) : Session Place := do
  requireAskable p
  let w ← surroundings
  let place := w.tree.resolve w.folder p
  match w.tree.locate false w.folder (Path.ofPlace place) with
  | .error .tooManyLinks => throw (.mishap (.endlessLinks (Path.ofPlace place).text))
  | _ => return place

/-! ## Changing files -/

/-- Replaces the tree. -/
def setTree (t : Tree) : Session Unit := fun w => pure (.ok (), { w with tree := t })

/-- Makes one folder, or tells why that cannot be done. -/
def tryMakeFolder (p : Path) : Session (Option SystemProblem) := do
  requireAskable p
  let w ← surroundings
  match w.tree.makeFolder w.folder p with
  | .ok t => setTree t; return none
  | .error problem => return some problem

/-- Accepts that a folder could not be made if it is there already. -/
def settleFolder (p : Path) (problem : SystemProblem) : Session Unit := do
  if problem = .missing then blame problem p
  else if ← hasFolder p then return ()
  else blame problem p

/-- Makes the folder with given names, last one first, and all folders above it that are
missing. -/
def makeFoldersFrom (slashes : Nat) : List String → Session Unit
  | [] => do
    let p : Path := ⟨slashes, []⟩
    match ← tryMakeFolder p with
    | none => return ()
    | some problem => settleFolder p problem
  | name :: above => do
    let p : Path := ⟨slashes, (name :: above).reverse⟩
    match ← tryMakeFolder p with
    | none => return ()
    | some .missing =>
      makeFoldersFrom slashes above
      match ← tryMakeFolder p with
      | none => return ()
      | some problem => settleFolder p problem
    | some problem => settleFolder p problem

/-- Makes a folder and all folders above it, as far as they are missing. -/
def makeFolders (p : Path) : Session Unit := makeFoldersFrom p.slashes p.parts.reverse

/-- The bytes of a text, if it can be encoded. -/
def encode (text : String) : Except Mishap (List UInt8) :=
  match Text.Surrogate.firstRun? (fun _ => true) text.toList with
  | none => .ok text.toUTF8.toList
  | some (before, halves) => .error (.notEncodable before halves)

/-- Writes bytes as a file in a folder that is there. -/
def writeBytes (p : Path) (bytes : List UInt8) : Session Unit := do
  requireAskable p
  let w ← surroundings
  match w.tree.writeFile w.folder p bytes with
  | .ok t => setTree t
  | .error problem => blame problem p

/-- Writes a file in a folder that is there. The file is emptied before its text is encoded. -/
def writeText (p : Path) (text : String) : Session Unit := do
  match encode text with
  | .ok bytes => writeBytes p bytes
  | .error m =>
    writeBytes p []
    throw (.mishap m)

/-- Takes the steps of a removal, up to the first one that the system does not allow. -/
def takeRemovals (whole : Place) : List Removal → Session Unit
  | [] => return ()
  | step :: rest => do
    let w ← surroundings
    match w.refusals.lookup step with
    | some problem => throw (.system ⟨problem, step.told whole⟩)
    | none =>
      setTree (w.tree.after step)
      takeRemovals whole rest

/-- Removes a folder with all that is in it, as far as the system allows (the removal in
`clean_directory`). -/
def removeAll (place : Place) : Session Unit := do
  takeRemovals place ((← surroundings).tree.removals place)

end Session

/-! ## Where the tool keeps its own files -/

/-- Whether a system follows the rule that names a folder for data of programs
(`_is_xdg_platform`). On other systems the files lie in a hidden folder in the home folder. -/
def followsDataRule (system : String) : Bool :=
  system = "Linux" || "BSD".toList.reverse.isPrefixOf system.toList.reverse

/-- The path of the tool's data folder. -/
def dataPath : Session Path := do
  if followsDataRule (← Session.surroundings).system then
    match ← Session.nonempty? "XDG_DATA_HOME" with
    | some folder => return (Path.ofString folder).below "swaggen"
    | none => return (← Session.home).below ".local/share/swaggen"
  else return (← Session.home).below ".swaggen/logs"

/-- The path of the tool's data folder, which is made if it is missing (`get_data_dir`). -/
def dataFolder : Session Path := do
  let path ← dataPath
  Session.makeFolders path
  return path

end TypedClients.Files
