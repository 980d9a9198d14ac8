import TypedClients.Run.Tasks
import TypedClients.Writing.Queue

/-!
# A run over all sources

A run takes the sources of some settings. Earlier output is cleared away first if the settings
say so; a source that is a folder stands for the documents in it. The documents are made one
after another, or at the same time. A source that fails does not stop the others.

Mirrors `RunResults`, `_clients_dir`, `expand_source` and `run_generator`. `run_generator` is
`all`: `cleanAll` is its loop over the folders of earlier output, `collect` the one over the
sources, `processJobs` its branch on whether documents are made at the same time.
-/

namespace TypedClients.Run

open Files (Path Session)

/-- The folder, below the output folder, in which all clients lie. -/
def clientsFolderName : String := "generatedClients"

/-- What came of a run (`RunResults`). -/
structure Results where
  total : Nat
  skipped : Nat
  results : List SourceResult

namespace Results

/-- How many documents gave clients. -/
def successful (r : Results) : Nat := r.results.countP SourceResult.succeeded

/-- How many documents gave none. -/
def failed (r : Results) : Nat := r.results.countP (!·.succeeded)

/-- The results of a run as a value. -/
def toValue (r : Results) : Value :=
  .map [(.str "total_sources", .int r.total), (.str "successful", .int r.successful),
    (.str "failed", .int r.failed), (.str "skipped", .int r.skipped),
    (.str "results", .list (r.results.map SourceResult.toValue))]

end Results

/-- The folder of the clients of a source (`_clients_dir`). -/
def clientsFolder (s : Settings) (source : Source) : Path :=
  (Path.ofString ((source.outputDir.filter (· ≠ "")).getD s.outputDir)).below clientsFolderName

/-- The key by which paths are put in order: their parts, after the slashes that they begin
with. -/
def orderKey (p : Path) : List (List Nat) :=
  (if p.slashes = 0 then p.parts else Text.repeated "/" p.slashes :: p.parts).map Text.codePoints

/-- Paths in order with one more in its place, behind those that do not come after it. -/
def insertInOrder (p : Path) : List Path → List Path
  | [] => [p]
  | q :: rest => if orderKey p < orderKey q then p :: q :: rest else q :: insertInOrder p rest

/-- Paths in order, each once. -/
def inOrder (ps : List Path) : List Path := ps.eraseDups.foldl (fun qs p => insertInOrder p qs) []

/-- Clears away the earlier output in some folders (the first loop of `run_generator`). -/
def cleanAll : List Path → Session Unit
  | [] => return ()
  | p :: rest => do
    let _ ← Writing.clean p
    cleanAll rest

/-- The documents a source stands for, each with the name its service is to have
(`expand_source`). -/
def expand (source : Source) : Session (List (String × Option String)) := do
  if source.type = .file && (← Session.hasFolder (Path.ofString source.location)) then
    let files ← Document.filesIn source.location
    return files.map fun p =>
      (p.text, some ((source.serviceName.filter (· ≠ "")).getD p.stem))
  else return [(source.location, source.serviceName)]

/-- The documents of one source, or the result if there are none to be had. -/
def jobsOf (s : Settings) (source : Source) : Session (List Job ⊕ SourceResult) := do
  match ← (expand source).attempt with
  | .error f =>
    if f.isRefusal then return .inr ⟨source.location, .error f⟩ else throw f
  | .ok pairs =>
    if pairs.isEmpty then Session.warn .running ("No spec files found in " ++ source.location)
    return .inl (pairs.map fun (location, name) => ⟨location, name, clientsFolder s source⟩)

/-- The documents of all sources, and the results of those that could not be listed (the
second loop of `run_generator`). -/
def collect (s : Settings) : List Source → Session (List Job × List SourceResult)
  | [] => return ([], [])
  | source :: rest => do
    let first ← jobsOf s source
    let (jobs, results) ← collect s rest
    match first with
    | .inl js => return (js ++ jobs, results)
    | .inr r => return (jobs, r :: results)

/-- Processes documents one after another. -/
def processAll (s : Settings) (planOnly : Bool) : List Job → Session (List SourceResult)
  | [] => return []
  | j :: rest => do
    let r ← process j.location j.folder (s.options j.serviceName) planOnly
    return r :: (← processAll s planOnly rest)

/-- A run over the sources of some settings, which processes the documents in a way that is
given. With `planOnly` nothing is removed. -/
def runWith (processJobs : List Job → Session (List SourceResult)) (s : Settings)
    (planOnly : Bool) :
    Session Results := do
  let active := s.sources.filter (!·.skip)
  if s.cleanOutput && !planOnly then cleanAll (inOrder (active.map (clientsFolder s)))
  let (jobs, unlisted) ← collect s active
  let results ← processJobs jobs
  return ⟨s.sources.length, s.sources.length - active.length, unlisted ++ results⟩

/-- A run that takes one document after another. -/
def inTurn (s : Settings) (planOnly : Bool) : Session Results :=
  runWith (processAll s planOnly) s planOnly

/-- Processes documents at the same time if the settings say so and there is more than one
(the branch of `run_generator` on `parallel`). -/
def processJobs (s : Settings) (planOnly : Bool) (turns : List Nat) (jobs : List Job) :
    Session (List SourceResult) :=
  if s.parallel && 1 < jobs.length then processTogether s planOnly turns jobs
  else processAll s planOnly jobs

/-- A run over the sources of some settings (`run_generator`). With `planOnly` nothing is
written or removed. The tasks of a parallel run take the turns that are given, before they
come to their ends. -/
def all (s : Settings) (planOnly : Bool) (turns : List Nat) : Session Results :=
  runWith (processJobs s planOnly turns) s planOnly

end TypedClients.Run
