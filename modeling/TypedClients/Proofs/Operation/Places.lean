import Mathlib.Data.List.Induction
import Mathlib.Data.List.Nodup
import TypedClients.Proofs.Operation.Keys

/-!
# Where every operation is found

A document describes an operation at each place, that is, at each path whose item is an object
and each method under which the item holds an object. Reading the document visits these places
in order and makes one operation of each (`map_place_operations`).

Groups are told apart by the paths of their folders. Folders of one service have the same path
only if they are the same (`folderOf_eq_of_keyOf_eq`), so a group holds exactly the operations
of its folder, in the order in which they were read. `Grouped` says this of operations and
groups; adding one operation keeps it (`Grouped.add`), and so it holds of the groups of any
operations (`grouped_ofOperations`).
-/

namespace TypedClients

/-! ## The places of a document -/

/-- Whether a path item describes an operation of a method. -/
def Extraction.describes (item : Value) (m : Method) : Bool := (item.get? m.word).any Value.isMap

/-- The places at which a document describes operations: by path, then by method. -/
def Document.places (d : Document) : List (String × Method) :=
  d.paths.flatMap fun e =>
    if e.2.isMap then (Method.all.filter (Extraction.describes e.2)).map (e.1, ·) else []

/-- The place of an operation. -/
def Operation.place (o : Operation) : String × Method := (o.path, o.method)

namespace Extraction

variable {d : Document} {path : String} {item : Value} {shared : List Value}

/-- Some methods of a path give one operation each if the path item describes it. -/
theorem map_place_operationsOfMethods {ms : List Method} {os : List Operation}
    (h : (operationsOfMethods d path item shared ms).outcome = .ok os) :
    os.map Operation.place = (ms.filter (describes item)).map (path, ·) := by
  induction ms generalizing os with
  | nil =>
    rw [operationsOfMethods, Checked.outcome_pure, Except.ok.injEq] at h
    rw [← h]
    rfl
  | cons m rest ih =>
    rw [operationsOfMethods] at h
    split at h
    next hnone =>
      have hno : describes item m = false := by
        rw [describes, Option.any_eq_false]
        intro op hop
        rw [hop, Option.filter_eq_none_iff] at hnone
        simpa using hnone op rfl
      rw [List.filter_cons_of_neg (Bool.eq_false_iff.1 hno), ih h]
    next op hop =>
      obtain ⟨hget, hmap⟩ := Option.filter_eq_some_iff.1 hop
      have hyes : describes item m = true := by
        rw [describes, hget]
        exact hmap
      obtain ⟨own, -, h⟩ := Checked.outcome_bind_eq_ok.1 h
      obtain ⟨merged, -, h⟩ := Checked.outcome_bind_eq_ok.1 h
      obtain ⟨o, ho, h⟩ := Checked.outcome_bind_eq_ok.1 h
      obtain ⟨others, hothers, h⟩ := Checked.outcome_bind_eq_ok.1 h
      cases h
      obtain ⟨hpath, hmethod⟩ := place_of_operation ho
      rw [List.filter_cons_of_pos hyes, List.map_cons, List.map_cons, ih hothers, Operation.place,
        hpath, hmethod]

/-- Some paths give one operation for each of their places. -/
theorem map_place_operationsOfPaths {paths : List (String × Value)} {os : List Operation}
    (h : (operationsOfPaths d paths).outcome = .ok os) :
    os.map Operation.place = paths.flatMap fun e =>
      if e.2.isMap then (Method.all.filter (describes e.2)).map (e.1, ·) else [] := by
  induction paths generalizing os with
  | nil =>
    rw [operationsOfPaths, Checked.outcome_pure, Except.ok.injEq] at h
    rw [← h]
    rfl
  | cons e rest ih =>
    obtain ⟨path, item⟩ := e
    rw [operationsOfPaths] at h
    rw [List.flatMap_cons]
    split at h
    next hmap =>
      obtain ⟨shared, -, h⟩ := Checked.outcome_bind_eq_ok.1 h
      obtain ⟨own, hown, h⟩ := Checked.outcome_bind_eq_ok.1 h
      obtain ⟨others, hothers, h⟩ := Checked.outcome_bind_eq_ok.1 h
      cases h
      rw [List.map_append, map_place_operationsOfMethods hown, ih hothers, if_pos hmap]
    next hmap =>
      obtain ⟨_, -, h⟩ := Checked.outcome_bind_eq_ok.1 h
      rw [ih h, if_neg hmap, List.nil_append]

end Extraction

/-- The operations of a document are one for each of its places, in order. -/
theorem map_place_operations {d : Document} {os : List Operation}
    (h : d.operations.outcome = .ok os) : os.map Operation.place = d.places := by
  rw [Document.operations] at h
  obtain ⟨os', hos, h⟩ := Checked.outcome_bind_eq_ok.1 h
  obtain ⟨_, -, h⟩ := Checked.outcome_bind_eq_ok.1 h
  cases h
  exact Extraction.map_place_operationsOfPaths hos

/-! ## Folders -/

namespace Layout

variable {service : String} {rules : List FolderRule} {versions : List String}

/-- A folder is the one of the service, or a folder right inside it. -/
theorem folderOf_shape (path service : String) (rules : List FolderRule) (versions : List String) :
    folderOf path service rules versions = [Naming.pascal service] ∨
      ∃ inside, folderOf path service rules versions = [Naming.pascal service, inside] := by
  unfold folderOf
  simp only
  split
  · exact Or.inr ⟨_, rfl⟩
  · exact Or.inr ⟨_, rfl⟩
  · split
    · exact Or.inr ⟨_, rfl⟩
    · split
      · exact Or.inl rfl
      · exact Or.inr ⟨_, rfl⟩

/-- Folders of one service are the same if their paths are. The name of the service has no
slash in it, so the first slash of a path is the one behind it. -/
theorem folderOf_eq_of_keyOf_eq {p q : String}
    (h : Group.keyOf (folderOf p service rules versions) =
      Group.keyOf (folderOf q service rules versions)) :
    folderOf p service rules versions = folderOf q service rules versions := by
  have hslash : '/' ∉ (Naming.pascal service).toList := by
    intro hmem
    rw [Naming.pascal, String.toList_ofList] at hmem
    exact absurd (Naming.mem_pascalChars hmem) (by decide)
  have hkey : ∀ inside, (Group.keyOf [Naming.pascal service, inside]).toList =
      (Naming.pascal service).toList ++ '/' :: inside.toList := by
    intro inside
    rw [Group.keyOf, Text.joinStrings, Text.joinStrings, String.toList_append, String.toList_append,
      List.append_assoc]
    rfl
  have hself : Group.keyOf [Naming.pascal service] = Naming.pascal service := rfl
  rcases folderOf_shape p service rules versions with hp | ⟨x, hp⟩
  · rcases folderOf_shape q service rules versions with hq | ⟨y, hq⟩
    · rw [hp, hq]
    · rw [hp, hq] at h
      have h' := congrArg String.toList h
      rw [hkey, hself] at h'
      exact absurd (h' ▸ List.mem_append_right _ List.mem_cons_self) hslash
  · rcases folderOf_shape q service rules versions with hq | ⟨y, hq⟩
    · rw [hp, hq] at h
      have h' := congrArg String.toList h
      rw [hkey, hself] at h'
      exact absurd (h' ▸ List.mem_append_right _ List.mem_cons_self) hslash
    · rw [hp, hq] at h ⊢
      have h' := congrArg String.toList h
      rw [hkey, hkey] at h'
      obtain ⟨-, hrest⟩ := Text.append_cons_inj hslash hslash h'
      rw [String.toList_inj.1 hrest]

end Layout

/-! ## Groups -/

namespace Group

/-- Groups hold operations by their folders. -/
structure Grouped (folder : Operation → List String) (os : List Operation) (gs : List Group) :
    Prop where
  /-- There is one group for each folder, in the order in which the folders come up first. -/
  keys : gs.map key = (os.map fun o => keyOf (folder o)).eraseDups
  /-- No two groups have the same key. -/
  nodup : (gs.map key).Nodup
  /-- A group holds the operations whose folder has its key, in their order. -/
  operations : ∀ g, g ∈ gs → g.operations = os.filter fun o => keyOf (folder o) = g.key
  /-- The folder of a group is the folder of each of its operations. -/
  folder : ∀ g o, g ∈ gs → o ∈ g.operations → g.folder = folder o

variable {folder : Operation → List String} {os : List Operation} {gs : List Group}

/-- What adding an operation makes of groups with distinct keys: the operation comes behind
those of its group, or becomes a group of its own. -/
theorem mem_add {path : List String} {o : Operation} (hnodup : (gs.map key).Nodup) {g' : Group} :
    g' ∈ add path o gs ↔
      (∃ g, g ∈ gs ∧ g.key ≠ keyOf path ∧ g' = g) ∨
      (∃ g, g ∈ gs ∧ g.key = keyOf path ∧ g' = { g with operations := g.operations ++ [o] }) ∨
      (keyOf path ∉ gs.map key ∧ g' = ⟨path, [o]⟩) := by
  induction gs with
  | nil => simp [add]
  | cons g gs ih =>
    rw [List.map_cons, List.nodup_cons] at hnodup
    rw [add]
    split
    next hkey =>
      -- no group behind this one has the key
      have hother : ∀ g', g' ∈ gs → g'.key ≠ keyOf path := by
        intro g' hg' he
        exact hnodup.1 (List.mem_map.2 ⟨g', hg', he.trans hkey.symm⟩)
      grind
    next hkey =>
      rw [List.mem_cons, ih hnodup.2]
      grind

/-- The keys in their first order, with one more behind them. -/
theorem eraseDups_concat (keys : List String) (k : String) :
    (keys ++ [k]).eraseDups =
      if k ∈ keys.eraseDups then keys.eraseDups else keys.eraseDups ++ [k] := by
  rw [List.eraseDups_append, List.removeAll]
  by_cases hk : k ∈ keys
  · simp [hk]
  · simp [hk, List.eraseDups_cons]

/-- Adding an operation to the group of its folder keeps groups in order. -/
theorem Grouped.add {o : Operation} (h : Grouped folder os gs)
    (hinj : ∀ o', keyOf (folder o') = keyOf (folder o) → folder o' = folder o) :
    Grouped folder (os ++ [o]) (Group.add (folder o) o gs) := by
  refine ⟨?_, nodup_keys_add h.nodup, ?_, ?_⟩
  · rw [keys_add, List.map_append, List.map_singleton, eraseDups_concat, ← h.keys]
  · intro g' hg'
    rw [List.filter_append]
    rcases (mem_add h.nodup).1 hg' with ⟨g, hg, hkey, rfl⟩ | ⟨g, hg, hkey, rfl⟩ | ⟨hnew, rfl⟩
    · rw [List.filter_singleton, decide_eq_false hkey.symm, cond_false, List.append_nil]
      exact h.operations _ hg
    · rw [List.filter_singleton, key, ← hkey, key, decide_eq_true rfl, cond_true]
      exact congrArg (· ++ [o]) (h.operations g hg)
    · -- none of the operations before has the new key
      have hnone : (os.filter fun o' => keyOf (folder o') = keyOf (folder o)) = [] := by
        refine List.filter_eq_nil_iff.2 fun o' ho' he => hnew ?_
        rw [h.keys, List.mem_eraseDups, ← of_decide_eq_true he]
        exact List.mem_map_of_mem ho'
      rw [key, hnone, List.filter_singleton, decide_eq_true rfl]
      rfl
  · intro g' o' hg' ho'
    rcases (mem_add h.nodup).1 hg' with ⟨g, hg, hkey, rfl⟩ | ⟨g, hg, hkey, rfl⟩ | ⟨hnew, rfl⟩
    · exact h.folder _ _ hg ho'
    · rcases List.mem_append.1 ho' with ho' | ho'
      · exact h.folder g o' hg ho'
      · rw [List.mem_singleton.1 ho']
        -- the group has an operation already, whose folder is the same as the new one's
        have hkeys : keyOf (folder o) ∈ gs.map key := hkey ▸ List.mem_map_of_mem hg
        rw [h.keys, List.mem_eraseDups] at hkeys
        obtain ⟨first, hfirst, hsame⟩ := List.mem_map.1 hkeys
        have hmem : first ∈ g.operations := by
          rw [h.operations g hg]
          exact List.mem_filter.2 ⟨hfirst, decide_eq_true (hsame.trans hkey.symm)⟩
        exact (h.folder g first hg hmem).trans (hinj first hsame)
    · rw [List.mem_singleton.1 ho']

/-- The groups of operations hold them by their folders. -/
theorem grouped_ofOperations (service : String) (rules : List FolderRule) (versions : List String)
    (os : List Operation) :
    Grouped (fun o => Layout.folderOf o.path service rules versions) os
      (ofOperations service rules versions os) := by
  -- from the end, since an operation is added to the groups of those before it
  induction os using List.reverseRecOn with
  | nil => exact ⟨rfl, List.nodup_nil, fun _ h => absurd h List.not_mem_nil,
      fun _ _ h => absurd h List.not_mem_nil⟩
  | append_singleton os o ih =>
    have hstep : ofOperations service rules versions (os ++ [o]) =
        Group.add (Layout.folderOf o.path service rules versions) o
          (ofOperations service rules versions os) := List.foldl_append
    rw [hstep]
    exact ih.add fun _ => Layout.folderOf_eq_of_keyOf_eq

/-- The folder of a group is the one of some operation. -/
theorem Grouped.exists_folder (h : Grouped folder os gs) {g : Group} (hg : g ∈ gs) :
    ∃ o, o ∈ os ∧ g.folder = folder o := by
  have hkey : g.key ∈ os.map fun o => keyOf (folder o) := by
    rw [← List.mem_eraseDups, ← h.keys]
    exact List.mem_map_of_mem hg
  obtain ⟨o, ho, hsame⟩ := List.mem_map.1 hkey
  refine ⟨o, ho, h.folder g o hg ?_⟩
  rw [h.operations g hg]
  exact List.mem_filter.2 ⟨ho, decide_eq_true hsame⟩

/-- Each operation is in one group, and only in this. -/
theorem Grouped.exists_unique (h : Grouped folder os gs) {o : Operation} (ho : o ∈ os) :
    ∃ g, g ∈ gs ∧ o ∈ g.operations ∧ ∀ g', g' ∈ gs → o ∈ g'.operations → g' = g := by
  have hkey : keyOf (folder o) ∈ gs.map key := by
    rw [h.keys, List.mem_eraseDups]
    exact List.mem_map_of_mem ho
  obtain ⟨g, hg, hgkey⟩ := List.mem_map.1 hkey
  refine ⟨g, hg, ?_, fun g' hg' ho' => ?_⟩
  · rw [h.operations g hg]
    exact List.mem_filter.2 ⟨ho, decide_eq_true hgkey.symm⟩
  · rw [h.operations g' hg', List.mem_filter] at ho'
    exact List.inj_on_of_nodup_map h.nodup hg' hg ((of_decide_eq_true ho'.2).symm.trans hgkey.symm)

/-- The operations of all groups with a key. -/
def under (key : String) (gs : List Group) : List Operation :=
  (gs.filter (·.key = key)).flatMap operations

/-- Under a key are the operations whose folder has it, in their order. -/
theorem Grouped.under (h : Grouped folder os gs) (k : String) :
    Group.under k gs = os.filter fun o => keyOf (folder o) = k := by
  by_cases hk : k ∈ gs.map key
  · obtain ⟨g, hg, rfl⟩ := List.mem_map.1 hk
    -- the group stands at one place, and no group before or behind it has its key
    obtain ⟨before, after, rfl⟩ := List.append_of_mem hg
    have hnodup := h.nodup
    rw [List.map_append, List.map_cons, List.nodup_append, List.nodup_cons] at hnodup
    obtain ⟨-, ⟨hafter, -⟩, hbefore⟩ := hnodup
    have hnone : ∀ l : List Group, g.key ∉ l.map key → l.filter (·.key = g.key) = [] := by
      intro l hl
      refine List.filter_eq_nil_iff.2 fun g' hg' he => hl ?_
      rw [← of_decide_eq_true he]
      exact List.mem_map_of_mem hg'
    have hbefore' : g.key ∉ before.map key := fun hm => hbefore _ hm _ List.mem_cons_self rfl
    rw [Group.under, List.filter_append, hnone before hbefore', List.filter_cons,
      hnone after hafter, if_pos (decide_eq_true rfl), List.nil_append, List.flatMap_singleton,
      h.operations g hg]
  · have hnone : gs.filter (·.key = k) = [] := by
      refine List.filter_eq_nil_iff.2 fun g hg he => hk ?_
      rw [← of_decide_eq_true he]
      exact List.mem_map_of_mem hg
    have hnone' : (os.filter fun o => keyOf (folder o) = k) = [] := by
      refine List.filter_eq_nil_iff.2 fun o ho he => hk ?_
      rw [h.keys, List.mem_eraseDups, ← of_decide_eq_true he]
      exact List.mem_map_of_mem ho
    rw [Group.under, hnone, hnone']
    rfl

/-- The order in which operations are put into groups does not matter for which of them share
a key. -/
theorem perm_under (service : String) (rules : List FolderRule) (versions : List String)
    {os os' : List Operation} (h : os.Perm os') (k : String) :
    (Group.under k (ofOperations service rules versions os)).Perm
      (Group.under k (ofOperations service rules versions os')) := by
  rw [(grouped_ofOperations service rules versions os).under k,
    (grouped_ofOperations service rules versions os').under k]
  exact h.filter _

end Group

end TypedClients
