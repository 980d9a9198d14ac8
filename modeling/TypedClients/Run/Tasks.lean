import TypedClients.Run.Source

/-!
# Documents that are made at the same time

A parallel run has a task for each of its documents. A task reads its document, and then, for
one file after the other, makes the folders that the file needs and writes it. The tasks take
turns, a step at a time, all in the same tree; a task that fails stops, and the others go on.
In which order they take turns is not up to the tool, so it is given.

Mirrors `process_source` and `_run_parallel`. The threads of `_run_parallel` are tasks that
take turns. Which task goes next is up to the system there and a parameter here, the list of
turns; in one turn a document is read, or the folders for one file are made, or it is written.
-/

namespace TypedClients.Run

open Files (Path Session)
open Writing (Queue)

/-- A document to be processed. -/
structure Job where
  location : String
  serviceName : Option String
  folder : Path
  deriving DecidableEq, Repr

/-! ## One task -/

/-- What is to be made of the document of a job, and the files to be written for it (the front
of `process_source`). -/
def plan (s : Settings) (planOnly : Bool) (job : Job) : Session (Made × Ordered String) := do
  let root ← Document.fetch job.location
  let document ← Session.checked (Document.load root)
  let output ← generate document (s.options job.serviceName)
  let files := if planOnly then [] else ((Queue.empty job.folder).addFolders output.folders).files
  return (⟨output.serviceName, files.map fun e => (job.folder.below e.1).text,
    output.preview⟩, files)

/-- How far a task has come. -/
inductive Stage
  /-- The document is not read yet. -/
  | waiting
  /-- The folders for the first of these files come next. -/
  | making (made : Made) (files : Ordered String)
  /-- A file comes next whose folders have been made. -/
  | writing (made : Made) (path text : String) (files : Ordered String)
  | done (outcome : Except Failure Made)

/-- The next step of a task. -/
def Stage.next (s : Settings) (planOnly : Bool) (job : Job) : Stage → Session Stage
  | waiting => do
    let (made, files) ← plan s planOnly job
    return making made files
  | making made [] => return done (.ok made)
  | making made ((path, text) :: files) => do
    Session.makeFolders (job.folder.below path).parent
    return writing made path text files
  | writing made path text files => do
    Session.writeText (job.folder.below path) text
    return making made files
  | done outcome => return done outcome

/-- The stage that the next step of a task leads to. A failure is noted, and is the end of the
task. -/
def Stage.advance (s : Settings) (planOnly : Bool) (job : Job) (stage : Stage) : Session Stage := do
  match ← (stage.next s planOnly job).attempt with
  | .ok stage => return stage
  | .error f =>
    Session.debug .running (failureNotice job.location f)
    return done (.error f)

/-- All that is left of a task. -/
def Stage.rest (s : Settings) (planOnly : Bool) (job : Job) : Stage → Session Made
  | waiting => make job.location job.folder (s.options job.serviceName) planOnly
  | making made files => do
    let _ ← Queue.writeFiles job.folder files
    return made
  | writing made path text files => do
    Session.writeText (job.folder.below path) text
    let _ ← Queue.writeFiles job.folder files
    return made
  | done outcome => Session.ofExcept outcome

/-! ## All tasks -/

/-- A task of a run. -/
structure Task where
  job : Job
  stage : Stage

/-- Brings a task to its end. -/
def Task.finish (s : Settings) (planOnly : Bool) (task : Task) : Session SourceResult :=
  match task.stage with
  | .done outcome => return ⟨task.job.location, outcome⟩
  | stage => do conclude task.job.location (← (stage.rest s planOnly task.job).attempt)

/-- Brings tasks to their ends, one after another. -/
def finishAll (s : Settings) (planOnly : Bool) : List Task → Session (List SourceResult)
  | [] => return []
  | task :: tasks => do
    let r ← task.finish s planOnly
    return r :: (← finishAll s planOnly tasks)

/-- The task with a number takes a step, if there is one. -/
def takeTurn (s : Settings) (planOnly : Bool) : Nat → List Task → Session (List Task)
  | _, [] => return []
  | 0, task :: tasks => do
    let stage ← task.stage.advance s planOnly task.job
    return ⟨task.job, stage⟩ :: tasks
  | n + 1, task :: tasks => do return task :: (← takeTurn s planOnly n tasks)

/-- Tasks take turns. -/
def takeTurns (s : Settings) (planOnly : Bool) : List Nat → List Task → Session (List Task)
  | [], tasks => return tasks
  | n :: turns, tasks => do takeTurns s planOnly turns (← takeTurn s planOnly n tasks)

/-- Processes documents at the same time (`_run_parallel`). When all turns are taken, what is
left of the tasks is done one after another. -/
def processTogether (s : Settings) (planOnly : Bool) (turns : List Nat) (jobs : List Job) :
    Session (List SourceResult) := do
  finishAll s planOnly (← takeTurns s planOnly turns (jobs.map fun job => ⟨job, .waiting⟩))

end TypedClients.Run
