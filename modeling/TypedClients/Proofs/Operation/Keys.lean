import Mathlib.Data.List.Nodup
import TypedClients.Layout.Folder
import TypedClients.Operation.Extraction
import TypedClients.Proofs.Report.Outcome

/-!
# Operations are told apart by their keys

A document has one path item per path, and every path item is asked once for each method. So
no two operations have the same method and the same path, hence no two have the same key, and
putting them into groups neither drops nor doubles one.

* `key_injective`: a key gives the method and the path back.
* `nodup_key_operations`: the operations of a document have distinct keys.
* `perm_ofOperations`: the groups together hold exactly the operations.
-/

namespace TypedClients

/-! ## Keys -/

theorem Method.not_mem_capitals (m : Method) : ':' ∉ m.capitals.toList := by
  cases m <;> decide

theorem Method.capitals_injective {m n : Method} (h : m.capitals = n.capitals) : m = n := by
  cases m <;> cases n <;> first | rfl | exact absurd h (by decide)

/-- Of two texts without a separator, each followed by it, the first parts are the same if the
whole texts are. -/
theorem Text.append_cons_inj {c : Char} {s t s' t' : List Char} (hs : c ∉ s) (ht : c ∉ t)
    (h : s ++ c :: s' = t ++ c :: t') : s = t ∧ s' = t' := by
  induction s generalizing t with
  | nil =>
    cases t with
    | nil => exact ⟨rfl, (List.cons.inj h).2⟩
    | cons d t => exact absurd (List.cons.inj h).1 fun e => ht (e ▸ List.mem_cons_self)
  | cons d s ih =>
    cases t with
    | nil => exact absurd (List.cons.inj h).1.symm fun e => hs (e ▸ List.mem_cons_self)
    | cons e t =>
      obtain ⟨rfl, htail⟩ := List.cons.inj h
      rw [List.mem_cons, not_or] at hs ht
      obtain ⟨rfl, hrest⟩ := ih hs.2 ht.2 htail
      exact ⟨rfl, hrest⟩

namespace Operation

theorem toList_key (o : Operation) :
    o.key.toList = o.method.capitals.toList ++ ':' :: o.path.toList := by
  rw [key, String.toList_append, String.toList_append, List.append_assoc]
  rfl

/-- A key gives the method and the path back. -/
theorem key_injective {o o' : Operation} (h : o.key = o'.key) :
    o.method = o'.method ∧ o.path = o'.path := by
  have h' := congrArg String.toList h
  rw [toList_key, toList_key] at h'
  obtain ⟨hmethod, hpath⟩ :=
    Text.append_cons_inj o.method.not_mem_capitals o'.method.not_mem_capitals h'
  exact ⟨Method.capitals_injective (String.toList_inj.1 hmethod), String.toList_inj.1 hpath⟩

end Operation

/-! ## The operations of a document -/

namespace Extraction

variable {d : Document} {path : String} {item : Value} {shared : List Value}

/-- An operation has the path and the method it was read for. -/
theorem place_of_operation {m : Method} {op : Value} {ps : List Value} {o : Operation}
    (h : (operation d path m op ps).outcome = .ok o) : o.path = path ∧ o.method = m := by
  rw [operation] at h
  obtain ⟨parsed, -, h⟩ := Checked.outcome_bind_eq_ok.1 h
  -- the two families differ in where the body is found only
  split at h
  all_goals
    obtain ⟨body, -, h⟩ := Checked.outcome_bind_eq_ok.1 h
    obtain ⟨responses, -, h⟩ := Checked.outcome_bind_eq_ok.1 h
    obtain ⟨texts, -, h⟩ := Checked.outcome_bind_eq_ok.1 h
    cases h
    exact ⟨rfl, rfl⟩

/-- The operations of a path have this path and distinct methods. -/
theorem places_of_operationsOfMethods {ms : List Method} {os : List Operation}
    (h : (operationsOfMethods d path item shared ms).outcome = .ok os) :
    (∀ o, o ∈ os → o.path = path) ∧ (os.map Operation.method).Sublist ms := by
  induction ms generalizing os with
  | nil =>
    rw [operationsOfMethods, Checked.outcome_pure, Except.ok.injEq] at h
    rw [← h]
    exact ⟨fun o ho => absurd ho List.not_mem_nil, List.Sublist.refl _⟩
  | cons m rest ih =>
    rw [operationsOfMethods] at h
    split at h
    · obtain ⟨hpath, hsub⟩ := ih h
      exact ⟨hpath, hsub.cons _⟩
    · obtain ⟨own, -, h⟩ := Checked.outcome_bind_eq_ok.1 h
      obtain ⟨merged, -, h⟩ := Checked.outcome_bind_eq_ok.1 h
      obtain ⟨o, ho, h⟩ := Checked.outcome_bind_eq_ok.1 h
      obtain ⟨others, hothers, h⟩ := Checked.outcome_bind_eq_ok.1 h
      cases h
      obtain ⟨hpath, hsub⟩ := ih hothers
      obtain ⟨hopath, homethod⟩ := place_of_operation ho
      refine ⟨fun o' ho' => ?_, ?_⟩
      · rcases List.mem_cons.1 ho' with rfl | ho'
        · exact hopath
        · exact hpath o' ho'
      · rw [List.map_cons, homethod]
        exact hsub.cons_cons m

/-- The operations of some paths have these paths, and distinct keys if the paths are distinct. -/
theorem places_of_operationsOfPaths {paths : List (String × Value)} {os : List Operation}
    (h : (operationsOfPaths d paths).outcome = .ok os) :
    (∀ o, o ∈ os → o.path ∈ paths.map Prod.fst) ∧
      ((paths.map Prod.fst).Nodup → (os.map Operation.key).Nodup) := by
  induction paths generalizing os with
  | nil =>
    rw [operationsOfPaths, Checked.outcome_pure, Except.ok.injEq] at h
    rw [← h]
    exact ⟨fun o ho => absurd ho List.not_mem_nil, fun _ => List.nodup_nil⟩
  | cons e rest ih =>
    obtain ⟨path, item⟩ := e
    rw [operationsOfPaths] at h
    rw [List.map_cons]
    split at h
    · obtain ⟨shared, -, h⟩ := Checked.outcome_bind_eq_ok.1 h
      obtain ⟨own, hown, h⟩ := Checked.outcome_bind_eq_ok.1 h
      obtain ⟨others, hothers, h⟩ := Checked.outcome_bind_eq_ok.1 h
      cases h
      obtain ⟨hpath, hmethods⟩ := places_of_operationsOfMethods hown
      obtain ⟨hpaths, hkeys⟩ := ih hothers
      refine ⟨fun o ho => ?_, fun hnodup => ?_⟩
      · rcases List.mem_append.1 ho with ho | ho
        · rw [hpath o ho]
          exact List.mem_cons_self
        · exact List.mem_cons_of_mem _ (hpaths o ho)
      · rw [List.nodup_cons] at hnodup
        -- operations of one path differ in their methods
        have hown' : (own.map Operation.key).Nodup := by
          have hdistinct : (own.map Operation.method).Nodup := hmethods.nodup (by decide)
          rw [List.Nodup, List.pairwise_map] at hdistinct ⊢
          exact hdistinct.imp fun hne e => hne (Operation.key_injective e).1
        rw [List.map_append, List.nodup_append]
        refine ⟨hown', hkeys hnodup.2, ?_⟩
        -- those of different paths differ in their paths
        intro k hk k' hk' e
        obtain ⟨o, ho, rfl⟩ := List.mem_map.1 hk
        obtain ⟨o', ho', rfl⟩ := List.mem_map.1 hk'
        have hsame := (Operation.key_injective e).2
        rw [hpath o ho] at hsame
        exact hnodup.1 (hsame ▸ hpaths o' ho')
    · obtain ⟨_, -, h⟩ := Checked.outcome_bind_eq_ok.1 h
      obtain ⟨hpaths, hkeys⟩ := ih h
      exact ⟨fun o ho => List.mem_cons_of_mem _ (hpaths o ho),
        fun hnodup => hkeys (List.nodup_cons.1 hnodup).2⟩

end Extraction

/-- The operations of a document with distinct paths have distinct keys. -/
theorem nodup_key_operations {d : Document} {os : List Operation}
    (h : d.operations.outcome = .ok os) (hpaths : (d.paths.map Prod.fst).Nodup) :
    (os.map Operation.key).Nodup := by
  rw [Document.operations] at h
  obtain ⟨os', hos, h⟩ := Checked.outcome_bind_eq_ok.1 h
  obtain ⟨_, -, h⟩ := Checked.outcome_bind_eq_ok.1 h
  cases h
  exact (Extraction.places_of_operationsOfPaths hos).2 hpaths

/-! ## Groups -/

namespace Group

/-- Adding an operation to groups adds it to what they hold together. -/
theorem perm_add (folder : List String) (o : Operation) (gs : List Group) :
    ((add folder o gs).flatMap operations).Perm (gs.flatMap operations ++ [o]) := by
  induction gs with
  | nil => simp [add]
  | cons g gs ih =>
    rw [add]
    split
    · rw [List.flatMap_cons, List.flatMap_cons, List.append_assoc, List.append_assoc]
      exact List.perm_append_comm.append_left g.operations
    · rw [List.flatMap_cons, List.flatMap_cons, List.append_assoc]
      exact ih.append_left g.operations

/-- The groups of operations together hold exactly the operations. -/
theorem perm_ofOperations (service : String) (rules : List FolderRule) (versions : List String)
    (os : List Operation) : ((ofOperations service rules versions os).flatMap operations).Perm
    os := by
  -- stated for any groups that are there already, so that the induction goes through
  have h : ∀ (os : List Operation) (gs : List Group),
      ((os.foldl (fun gs o => add (Layout.folderOf o.path service rules versions) o gs) gs).flatMap
        operations).Perm (gs.flatMap operations ++ os) := by
    intro os
    induction os with
    | nil => intro gs; rw [List.append_nil]; exact List.Perm.refl _
    | cons o rest ih =>
      intro gs
      refine (ih _).trans ?_
      rw [List.append_cons]
      exact (perm_add _ o gs).append_right rest
  exact h os []

end Group

end TypedClients
