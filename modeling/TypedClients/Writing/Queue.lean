import TypedClients.Files.Session
import TypedClients.Generation
import TypedClients.Writing.FileText

/-!
# Output on disk

A queue collects the files of one output folder under their paths below it. A file that comes
again replaces the earlier one at its place in the queue. Nothing is written before
`Queue.write`. Before that `clean` may remove the folder of earlier output, but never the
root, the home folder or the working folder.

Mirrors `OutputWriter` and `clean_directory`. `writeFiles` is the loop of `write_all`, which
stops at the first file that cannot be written.
-/

namespace TypedClients.Writing

open Files (Path Place Session)

/-- Files that wait to be written below a folder, in the order in which their paths came
(`OutputWriter`). -/
structure Queue where
  folder : Path
  files : Ordered String

namespace Queue

/-- A queue without files. -/
def empty (folder : Path) : Queue := ⟨folder, []⟩

/-- One more file. -/
def add (q : Queue) (path body header : String) : Queue :=
  { q with files := q.files.put path (fileText body header) }

/-- The header of a file. -/
def headerOf (f : GeneratedFile) : String :=
  if f.name = typesFileName then typesHeader else clientHeader

/-- The files of one folder added. -/
def addFolder (q : Queue) (folder : List String) : List GeneratedFile → Queue
  | [] => q
  | f :: rest =>
    (q.add (Text.joinStrings "/" (folder ++ [f.filename])) f.body (headerOf f)).addFolder
      folder rest

/-- All files of some folders added (`OutputWriter.add_output`). -/
def addFolders (q : Queue) (folders : List FolderOutput) : Queue :=
  folders.foldl (fun q f => q.addFolder f.folder f.files) q

/-- How the files would lie in their folders. -/
def preview (q : Queue) : String := Preview.text q.files.keys

/-- Writes some files below a folder, with the folders they need, and gives their paths. -/
def writeFiles (folder : Path) : Ordered String → Session (List Path)
  | [] => return []
  | (path, text) :: rest => do
    let target := folder.below path
    Session.makeFolders target.parent
    Session.writeText target text
    return target :: (← writeFiles folder rest)

/-- Writes all files and gives their paths (`OutputWriter.write_all`). -/
def write (q : Queue) : Session (List Path) := do
  let written ← writeFiles q.folder q.files
  Session.debug .writing ("Wrote " ++ Number.natText written.length ++ " files under " ++
    q.folder.text)
  return written

end Queue

/-! ## Clearing away earlier output -/

/-- The places that are never removed. -/
def protectedPlaces : Session (List Place) := do
  return [[], ← Session.resolve (← Session.home), ← Session.resolve (← Session.workFolder)]

/-- Removes a folder, and tells whether it was there (`clean_directory`). It may be left
halfway. -/
def clean (path : Path) : Session Bool := do
  let place ← Session.resolve path
  let name := (Path.ofPlace place).text
  if place ∈ (← protectedPlaces) then Session.refuse (.cleaningRefused name)
  match ← Session.at? (Path.ofPlace place) with
  | none => return false
  | some .folder =>
    Session.removeAll place
    Session.debug .writing ("Removed " ++ name)
    return true
  | some _ => Session.refuse (.outputNotADirectory name)

end TypedClients.Writing
