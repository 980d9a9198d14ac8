import TypedClients.Proofs.Generation.Parts
import TypedClients.Proofs.Operation.Places

/-!
# The files of a document have different paths

A document gives two files for each of its folders: one of types, and a client that is called
like the folder. The path of a file tells its folder and which of the two it is. So no file of
a document waits under the path of another one.

* `folders_of_generate`: the folders of a generation, and the files in them.
* `nodup_paths_of_generate`: no two files of a generation have the same path.
-/

namespace TypedClients.Generation

open TypedClients.Group (keyOf)

variable {d : Document} {limit : Nat} {options : Options} {out : Output} {service : String}
    {f f' : FolderOutput}

/-- The folder of a group as it is written: it is the one of the service or right inside it,
and holds a file of types and a client. -/
structure IsFolder (service : String) (f : FolderOutput) : Prop where
  folder : f.folder = [Naming.pascal service] ∨ ∃ inside, f.folder = [Naming.pascal service, inside]
  files : ∃ types client,
    f.files = [⟨typesFileName, types⟩, ⟨String.join f.folder ++ "Client", client⟩]

theorem exists_written {t : TypeTable} {sources : List String} {gs : List Group}
    {folders : List FolderOutput} (h : List.Forall₂ (Written d options t sources) gs folders)
    (hf : f ∈ folders) : ∃ g, g ∈ gs ∧ Written d options t sources g f := by
  induction h with
  | nil => exact absurd hf List.not_mem_nil
  | cons hfirst _ ih =>
    rcases List.mem_cons.1 hf with rfl | hf
    · exact ⟨_, List.mem_cons_self, hfirst⟩
    · obtain ⟨g, hg, hwritten⟩ := ih hf
      exact ⟨g, List.mem_cons_of_mem _ hg, hwritten⟩

/-- There is one such folder for each group, with a key of its own. -/
theorem folders_of_generate (h : (d.generate limit options).outcome = .ok out) :
    (out.folders.map fun f => keyOf f.folder).Nodup ∧
      ∀ f, f ∈ out.folders → IsFolder out.serviceName f ∧
        ∃ path, f.folder = Layout.folderOf path out.serviceName options.rules options.versions := by
  obtain ⟨p, t, sources, folders, hp, -, hfolders, rfl⟩ := outcome_generate_eq_ok.1 h
  obtain ⟨index, os, -, -, -, rfl⟩ := outcome_parts_eq_ok.1 hp
  have hgrouped := Group.grouped_ofOperations
    (Naming.serviceName d.info.title options.serviceName) options.rules options.versions os
  have hwritten := written_of_folderOutputs hfolders
  refine ⟨?_, fun f hf => ?_⟩
  · have hkeys := List.forall₂_map_left_iff.2 <| List.forall₂_map_right_iff.2 <|
      hwritten.imp (S := fun g f => Group.key g = keyOf f.folder) (by
        rintro g _ ⟨client, -, rfl⟩
        rfl)
    rw [List.forall₂_eq_eq_eq] at hkeys
    rw [← hkeys]
    exact hgrouped.nodup
  · obtain ⟨g, hg, client, hclient, rfl⟩ := exists_written hwritten hf
    obtain ⟨o, -, hfolder⟩ := hgrouped.exists_folder hg
    refine ⟨⟨?_, ?_⟩, o.path, hfolder⟩
    · rw [hfolder]
      exact Layout.folderOf_shape _ _ _ _
    · rw [name_of_client hclient]
      exact ⟨_, _, rfl⟩

/-! ## Paths -/

theorem IsFolder.ne_nil (h : IsFolder service f) : f.folder ≠ [] := by
  rcases h.folder with hf | ⟨_, hf⟩
  · rw [hf]
    exact List.cons_ne_nil _ _
  · rw [hf]
    exact List.cons_ne_nil _ _

/-- The path of a file is the one of its folder with the name of the file behind it. -/
theorem IsFolder.paths (h : IsFolder service f) :
    f.paths = [keyOf f.folder ++ "/" ++ "types.ts",
      keyOf f.folder ++ "/" ++ (String.join f.folder ++ "Client.ts")] := by
  obtain ⟨types, client, hfiles⟩ := h.files
  rw [FolderOutput.paths, hfiles, List.map_cons, List.map_singleton,
    Text.joinStrings_append _ h.ne_nil (List.cons_ne_nil _ _),
    Text.joinStrings_append _ h.ne_nil (List.cons_ne_nil _ _)]
  have hname : GeneratedFile.filename ⟨String.join f.folder ++ "Client", client⟩ =
      String.join f.folder ++ "Client.ts" := String.append_assoc
  rw [hname]
  rfl

theorem length_clientPath_service (s : String) :
    (keyOf [s] ++ "/" ++ (String.join [s] ++ "Client.ts")).length = 2 * s.length + 10 := by
  have hslash : "/".length = 1 := by decide
  have hending : "Client.ts".length = 9 := by decide
  simp only [keyOf, Text.joinStrings, String.join_cons, String.join_nil, String.append_empty,
    String.length_append, hslash, hending]
  omega

theorem length_clientPath_inside (s inside : String) :
    (keyOf [s, inside] ++ "/" ++ (String.join [s, inside] ++ "Client.ts")).length =
      2 * s.length + 2 * inside.length + 11 := by
  have hslash : "/".length = 1 := by decide
  have hending : "Client.ts".length = 9 := by decide
  simp only [keyOf, Text.joinStrings, String.join_cons, String.join_nil, String.append_empty,
    String.length_append, hslash, hending]
  omega

/-- The path of a client gives its folder back, by its length. -/
theorem IsFolder.key_eq (h : IsFolder service f) (h' : IsFolder service f')
    (heq : keyOf f.folder ++ "/" ++ (String.join f.folder ++ "Client.ts") =
      keyOf f'.folder ++ "/" ++ (String.join f'.folder ++ "Client.ts")) :
    keyOf f.folder = keyOf f'.folder := by
  have hlength := congrArg String.length heq
  rcases h.folder with hf | ⟨i, hf⟩ <;> rcases h'.folder with hf' | ⟨j, hf'⟩
  · rw [hf, hf']
  · rw [hf, hf', length_clientPath_service, length_clientPath_inside] at hlength
    omega
  · rw [hf, hf', length_clientPath_service, length_clientPath_inside] at hlength
    omega
  · rw [hf, hf', length_clientPath_inside, length_clientPath_inside] at hlength
    rw [hf, hf'] at heq ⊢
    have hsame : i.toList.length = j.toList.length := by
      rw [String.length_toList, String.length_toList]
      omega
    have hlist := congrArg String.toList heq
    simp only [keyOf, Text.joinStrings, String.toList_append, List.append_assoc,
      List.append_cancel_left_eq] at hlist
    rw [String.toList_inj.1 (List.append_inj hlist hsame).1]

/-- A file of types and a client never have the same path, by the ends of their names. -/
theorem types_ne_client (key key' folder : String) :
    key ++ "/" ++ "types.ts" ≠ key' ++ "/" ++ (folder ++ "Client.ts") := by
  intro heq
  have hlist : key.toList ++ "/types.ts".toList =
      (key' ++ "/" ++ folder).toList ++ "Client.ts".toList := by
    have hjoined : "/" ++ "types.ts" = "/types.ts" := by decide
    have htypes : key ++ "/types.ts" = key ++ "/" ++ "types.ts" := by
      rw [String.append_assoc, hjoined]
    have hclient : key' ++ "/" ++ folder ++ "Client.ts" = key' ++ "/" ++ (folder ++ "Client.ts") :=
      String.append_assoc
    rw [← String.toList_append, ← String.toList_append, htypes, hclient, heq]
  have hends := (List.append_inj' hlist (by simp)).2
  exact absurd hends (by decide)

/-- Folders with different keys have no path in common. -/
theorem IsFolder.disjoint (h : IsFolder service f) (h' : IsFolder service f')
    (hne : keyOf f.folder ≠ keyOf f'.folder) : List.Disjoint f.paths f'.paths := by
  rw [h.paths, h'.paths]
  intro path hpath hpath'
  simp only [List.mem_cons, List.not_mem_nil, or_false] at hpath hpath'
  rcases hpath with rfl | rfl <;> rcases hpath' with heq | heq
  · exact hne ((String.append_left_inj _).1 ((String.append_left_inj _).1 heq))
  · exact types_ne_client _ _ _ heq
  · exact types_ne_client _ _ _ heq.symm
  · exact hne (h.key_eq h' heq)

/-- No two files of a generation have the same path. -/
theorem nodup_paths_of_generate (h : (d.generate limit options).outcome = .ok out) :
    (out.folders.flatMap FolderOutput.paths).Nodup := by
  obtain ⟨hkeys, hfolders⟩ := folders_of_generate h
  rw [List.nodup_flatMap]
  refine ⟨fun f hf => ?_, ?_⟩
  · rw [(hfolders f hf).1.paths, List.nodup_cons, List.mem_singleton]
    exact ⟨types_ne_client _ _ _, List.nodup_singleton _⟩
  · refine (List.pairwise_map.1 hkeys).imp_of_mem fun hf hf' hne => ?_
    exact (hfolders _ hf).1.disjoint (hfolders _ hf').1 hne

end TypedClients.Generation
