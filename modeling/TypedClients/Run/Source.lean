import TypedClients.Document.Loading
import TypedClients.Settings.Basic
import TypedClients.Writing.Queue

/-!
# Clients of one source

A source is read, turned into files and, unless only a plan is wanted, written. Whatever goes
wrong on the way is part of the result.

* `outcome_process`: processing a source always gives a result, which holds what became of it.

Mirrors `SourceResult` and `process_source`. The two handlers of `process_source` are
`conclude`, which turns any failure into a result.
-/

namespace TypedClients.Run

open Files (Path Session)
open Writing (Queue)

/-- What was made of a document. -/
structure Made where
  serviceName : String
  written : List String
  preview : String
  deriving DecidableEq, Repr

/-- What came of one document. -/
structure SourceResult where
  source : String
  outcome : Except Failure Made

namespace SourceResult

/-- Whether clients were made. -/
def succeeded (r : SourceResult) : Bool :=
  match r.outcome with
  | .ok _ => true
  | .error _ => false

/-- What was made, or nothing at all. -/
def made (r : SourceResult) : Made :=
  match r.outcome with
  | .ok m => m
  | .error _ => ⟨"", [], ""⟩

/-- The texts of what went wrong. -/
def errors (r : SourceResult) : List String :=
  match r.outcome with
  | .ok _ => []
  | .error f => [f.summary]

/-- A result as a value. -/
def toValue (r : SourceResult) : Value :=
  .map [(.str "source", .str r.source), (.str "success", .bool r.succeeded),
    (.str "service_name", .str r.made.serviceName),
    (.str "files_written", .list (r.made.written.map Value.str)),
    (.str "folder_structure", .str r.made.preview),
    (.str "errors", .list (r.errors.map Value.str))]

end SourceResult

/-- The output of a document, with the room that there is for following its schemas. -/
def generate (document : Document) (options : Options) : Session Output := do
  Session.checked (document.generate (← Session.surroundings).nestingLimit options)

/-- Makes the clients of a document. With `planOnly` nothing is written. -/
def make (source : String) (folder : Path) (options : Options) (planOnly : Bool) :
    Session Made := do
  let root ← Document.fetch source
  let document ← Session.checked (Document.load root)
  let output ← generate document options
  let queue := (Queue.empty folder).addFolders output.folders
  let written ← if planOnly then pure [] else queue.write
  Session.debug .running ("Source " ++ source ++ " -> " ++ output.serviceName ++ " (" ++
    Number.natText queue.files.length ++ " files)")
  return ⟨output.serviceName, written.map Path.text, output.preview⟩

/-- What is noted when a source fails. -/
def failureNotice (source : String) (f : Failure) : String :=
  match f with
  | .refused _ | .system _ => "Source " ++ source ++ " failed: " ++ f.summary
  | _ => "Unexpected failure for source " ++ source

/-- The result for a source. A failure is noted. -/
def conclude (source : String) (outcome : Except Failure Made) : Session SourceResult := do
  match outcome with
  | .ok _ => pure ()
  | .error f => Session.debug .running (failureNotice source f)
  return ⟨source, outcome⟩

/-- Makes the clients of a document and tells what came of it (`process_source`). -/
def process (source : String) (folder : Path) (options : Options) (planOnly : Bool) :
    Session SourceResult := do
  conclude source (← (make source folder options planOnly).attempt)

theorem outcome_generate (document : Document) (options : Options) (w : Files.Workspace) :
    (generate document options).outcome w =
      ((document.generate w.nestingLimit options).outcome, w) := rfl

theorem outcome_conclude (source : String) (outcome : Except Failure Made) (w : Files.Workspace) :
    (conclude source outcome).outcome w = (.ok ⟨source, outcome⟩, w) := by
  cases outcome with
  | ok _ => rfl
  | error _ => rfl

theorem outcome_process (source : String) (folder : Path) (options : Options) (planOnly : Bool)
    (w : Files.Workspace) :
    (process source folder options planOnly).outcome w =
      (.ok ⟨source, ((make source folder options planOnly).outcome w).1⟩,
        ((make source folder options planOnly).outcome w).2) := by
  rw [process, Session.outcome_bind, Session.outcome_attempt]
  exact outcome_conclude source _ _

end TypedClients.Run
