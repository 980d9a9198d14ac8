import TypedClients.Naming.Path
import TypedClients.Operation.Basic

/-!
# Where operations go

Each operation belongs to one output folder, which its path alone decides, given the name of the
service and the folder rules. Operations of one folder make up a `Group` and become one client.

* `nodup_keys_add`: no two groups have the same key.

Mirrors `FolderRule`, `folder_for_path`, `EndpointGroup` and `group_operations`.
`group_operations` fills a map while it goes over the operations; `add` is one turn of that
loop.
-/

namespace TypedClients

/-- Sends the paths with a fragment in one of their segments to a folder. -/
structure FolderRule where
  fragment : String
  folder : String
  deriving DecidableEq, Repr

/-- Whether the fragment of a rule occurs in a segment, cases aside. -/
def FolderRule.covers (rule : FolderRule) (segment : String) : Bool :=
  Text.contains (Text.lower rule.fragment.toList) (Text.lower segment.toList)

namespace Layout

/-- The rules in force unless settings name others. -/
def defaultRules : List FolderRule := [⟨"therapist", "Therapist"⟩]

/-- The folder of paths with at most one static segment. -/
def rootFolder : String := "Root"

/-- The output folder of a path (`folder_for_path`): the folder of the service, then one for
the path. -/
def folderOf (path service : String) (rules : List FolderRule) (versions : List String) :
    List String :=
  let service := Naming.pascal service
  match Naming.staticSegments path versions with
  | [] | [_] => [service, rootFolder]
  | first :: rest =>
    match rules.find? fun r => (first :: rest).any r.covers with
    | some rule => [service, rule.folder]
    | none =>
      let folder := Naming.pascal first
      if folder = service then [service] else [service, folder]

end Layout

/-- The operations that share an output folder (`EndpointGroup`). -/
structure Group where
  folder : List String
  operations : List Operation

namespace Group

/-- The path of a folder, which tells groups apart. -/
def keyOf (folder : List String) : String := Text.joinStrings "/" folder

/-- The key of a group. -/
def key (g : Group) : String := keyOf g.folder

/-- The name of the client of a group (`EndpointGroup.client_name`). -/
def clientName (g : Group) : String := String.join g.folder ++ "Client"

/-- Groups with one more operation, in the group of its folder or in a new one at the end. -/
def add (folder : List String) (o : Operation) : List Group → List Group
  | [] => [⟨folder, [o]⟩]
  | g :: gs =>
    if g.key = keyOf folder then { g with operations := g.operations ++ [o] } :: gs
    else g :: add folder o gs

/-- The groups of operations, in the order in which their folders come up
(`group_operations`). -/
def ofOperations (service : String) (rules : List FolderRule) (versions : List String)
    (os : List Operation) : List Group :=
  os.foldl (fun gs o => add (Layout.folderOf o.path service rules versions) o gs) []

/-! ## Keys are distinct -/

theorem keys_add (folder : List String) (o : Operation) (gs : List Group) :
    (add folder o gs).map key =
      if keyOf folder ∈ gs.map key then gs.map key else gs.map key ++ [keyOf folder] := by
  induction gs with
  | nil => simp [add, key]
  | cons g gs ih =>
    rw [add]
    by_cases h : g.key = keyOf folder
    · simp only [h, if_true, List.map_cons, List.mem_cons, true_or]
      exact congrArg (· :: gs.map key) h
    · have h' : keyOf folder ≠ g.key := fun e => h e.symm
      by_cases hm : keyOf folder ∈ gs.map key
      · simp only [hm, if_true] at ih
        simp only [h, if_false, List.map_cons, ih, List.mem_cons, hm, or_true, if_true]
      · simp only [hm, if_false] at ih
        simp only [h, if_false, List.map_cons, ih, List.mem_cons, h', hm, or_self, List.cons_append]

theorem nodup_keys_add {folder : List String} {o : Operation} {gs : List Group}
    (h : (gs.map key).Nodup) : ((add folder o gs).map key).Nodup := by
  rw [keys_add]
  split
  · exact h
  next hm => exact List.nodup_append.2 ⟨h, by simp, by
      intro a ha b hb e
      rw [List.mem_singleton.1 hb] at e
      exact hm (e ▸ ha)⟩

end Group

end TypedClients
