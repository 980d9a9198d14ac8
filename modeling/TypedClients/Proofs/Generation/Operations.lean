import Mathlib.Algebra.GroupWithZero.Nat
import TypedClients.Proofs.Generation
import TypedClients.Proofs.Operation.Places

/-!
# Every operation becomes one member

From a document to its clients no operation is lost, made twice or put elsewhere: one
operation is read from each place of the document, it goes into the group of its folder, and
the client of this group has one member for it.

* `clients_of_folderOutputs`: the clients together have as many members as there are operations.
* `generate_places_operations`: the whole way, with the groups in any order of the operations.
-/

namespace TypedClients.Generation

variable {d : Document} {limit : Nat} {options : Options} {t : TypeTable} {sources : List String}

/-- The members of a client are as many as the operations of its group. -/
theorem length_members {g : Group} {style : Endpoints.NameStyle} {client : ClientModule}
    (h : g.client t style = .ok client) : client.members.length = g.operations.length :=
  (Client.members_of_client h).length_eq.symm

/-- The clients that are written into folders are those of the groups, in order, and have one
member for each operation. -/
theorem clients_of_folderOutputs {gs : List Group} {folders : List FolderOutput}
    (h : folderOutputs d options t sources gs = .ok folders) :
    ∃ clients : List ClientModule,
      List.Forall₂ (fun g c => g.client t options.nameStyle = .ok c) gs clients ∧
      List.Forall₂ (fun f c => f.files.map GeneratedFile.name = [typesFileName, c.name] ∧
        ⟨c.name, c.text f.folder options.transport d.baseUrl⟩ ∈ f.files) folders clients ∧
      (clients.map fun c => c.members.length).sum = (gs.flatMap Group.operations).length := by
  have hwritten := written_of_folderOutputs h
  clear h
  induction hwritten with
  | nil => exact ⟨[], .nil, .nil, rfl⟩
  | @cons g f gs folders hfolder _ ih =>
    obtain ⟨client, hclient, rfl⟩ := hfolder
    obtain ⟨clients, hclients, hfiles, hsum⟩ := ih
    refine ⟨client :: clients, .cons hclient hclients, .cons ⟨rfl, ?_⟩ hfiles, ?_⟩
    · exact List.mem_cons_of_mem _ (List.mem_singleton.2 rfl)
    · rw [List.map_cons, List.sum_cons, hsum, length_members hclient, List.flatMap_cons,
        List.length_append]

/-- What becomes of the operations of a document: where they are read, how they are grouped,
and how many members they become. -/
structure KeepsOperations (d : Document) (options : Options) (p : Parts) (t : TypeTable)
    (out : Output) : Prop where
  /-- One operation is read from each place of the document, in order. -/
  read : d.operations.outcome = .ok p.operations ∧ p.operations.map Operation.place = d.places
  /-- No two operations have the same place, and no two the same key. -/
  distinct : (p.operations.map Operation.place).Nodup ∧ (p.operations.map Operation.key).Nodup
  /-- The groups hold the operations by their folders: distinct keys in the order in which
  they come up, the operations of a group in their order, the folder of the group that of each
  of them. -/
  grouped : Group.Grouped (fun o => Layout.folderOf o.path p.serviceName options.rules
    options.versions) p.operations p.groups
  /-- Each operation is in one group and in no other, once. -/
  once : (p.groups.flatMap Group.operations).Perm p.operations ∧
    ∀ o, o ∈ p.operations → ∃ g, g ∈ p.groups ∧ o ∈ g.operations ∧
      ∀ g', g' ∈ p.groups → o ∈ g'.operations → g' = g
  /-- The count that is reported is that of the members of all clients that are written. -/
  count : ∃ clients : List ClientModule,
    List.Forall₂ (fun g c => g.client t options.nameStyle = .ok c) p.groups clients ∧
    List.Forall₂ (fun f c => f.files.map GeneratedFile.name = [typesFileName, c.name] ∧
      ⟨c.name, c.text f.folder options.transport d.baseUrl⟩ ∈ f.files) out.folders clients ∧
    out.operationCount = ((clients.map fun c => c.members.length).sum : Nat)

/-- A generation from a document with distinct paths makes one member of each operation that
the document describes. The groups are those of the operations, and in whatever order
operations are put into groups, the same ones come under one key. -/
theorem generate_places_operations {out : Output} (hpaths : (d.paths.map Prod.fst).Nodup)
    (h : (d.generate limit options).outcome = .ok out) :
    ∃ p t sources, (parts d limit options).outcome = .ok p ∧
      (types p options).outcome = .ok (t, sources) ∧
      p.groups = Group.ofOperations p.serviceName options.rules options.versions p.operations ∧
      KeepsOperations d options p t out ∧
      ∀ os os' : List Operation, os.Perm os' → ∀ k,
        (Group.under k (Group.ofOperations p.serviceName options.rules options.versions os)).Perm
          (Group.under k
            (Group.ofOperations p.serviceName options.rules options.versions os')) := by
  obtain ⟨p, t, sources, folders, hp, ht, hfolders, rfl⟩ := outcome_generate_eq_ok.1 h
  refine ⟨p, t, sources, hp, ht, ?_, ?_, fun os os' hperm k => Group.perm_under _ _ _ hperm k⟩
  · obtain ⟨index, os, -, -, -, rfl⟩ := outcome_parts_eq_ok.1 hp
    rfl
  · obtain ⟨index, os, -, hos, -, rfl⟩ := outcome_parts_eq_ok.1 hp
    have hgrouped := Group.grouped_ofOperations
      (Naming.serviceName d.info.title options.serviceName) options.rules options.versions os
    have hperm := Group.perm_ofOperations
      (Naming.serviceName d.info.title options.serviceName) options.rules options.versions os
    obtain ⟨clients, hclients, hfiles, hsum⟩ := clients_of_folderOutputs hfolders
    have hkeys := nodup_key_operations hos hpaths
    have hplaces : (os.map Operation.place).Nodup := by
      rw [List.Nodup, List.pairwise_map] at hkeys ⊢
      -- two operations at one place would have one key
      refine hkeys.imp fun hne he => hne ?_
      rw [Operation.key, Operation.key, (Prod.mk.inj he).1, (Prod.mk.inj he).2]
    refine ⟨⟨hos, map_place_operations hos⟩, ⟨hplaces, hkeys⟩, hgrouped, ⟨hperm, ?_⟩, ?_⟩
    · exact fun o ho => hgrouped.exists_unique ho
    · refine ⟨clients, hclients, hfiles, ?_⟩
      rw [hsum, hperm.length_eq]

/-- A document with paths in three folders, one of them by a rule, and with entries that
describe no operation. -/
def threeFolders : Document where
  family := .openapi3
  versionText := "3.0.0"
  info := ⟨some "Clinic", none, none⟩
  paths :=
    [("/patients/{id}", .map
      [(.str "delete", .map []), (.str "summary", .str "One patient"), (.str "get", .map [])]),
      ("/legacy", .null),
      ("/patients/{id}/notes", .map [(.str "get", .map []), (.str "post", .null)]),
      ("/staff/therapists", .map [(.str "put", .map [])]),
      ("/patients/search", .map [(.str "post", .map [])])]
  definitions := []
  baseUrl := defaultBaseUrl
  root := .map []

theorem generate_places_threeFolders :
    (threeFolders.paths.map Prod.fst).Nodup ∧
      threeFolders.places = [("/patients/{id}", .get), ("/patients/{id}", .delete),
        ("/patients/{id}/notes", .get), ("/staff/therapists", .put), ("/patients/search", .post)] ∧
      ∃ out, (threeFolders.generate 300 .default).outcome = .ok out ∧
        out.operationCount = 5 ∧
        ∃ p t sources, (parts threeFolders 300 .default).outcome = .ok p ∧
          (types p .default).outcome = .ok (t, sources) ∧
          p.groups.map Group.key = ["ClinicService/Root", "ClinicService/Patients",
            "ClinicService/Therapist"] ∧
          KeepsOperations threeFolders .default p t out := by
  have hpaths : (threeFolders.paths.map Prod.fst).Nodup := by decide
  have hrun : (threeFolders.generate 300 .default).outcome.toOption.any
      (fun out => out.operationCount = 5) = true := by decide +kernel
  have hkeys : (parts threeFolders 300 .default).outcome.toOption.any (fun p =>
      p.groups.map Group.key = ["ClinicService/Root", "ClinicService/Patients",
        "ClinicService/Therapist"]) = true := by decide +kernel
  obtain ⟨out, hout, hcount⟩ := (Option.any_eq_true _ _).1 hrun
  have hok := Failure.eq_ok_of_toOption hout
  obtain ⟨p, t, sources, hp, ht, -, hkeeps, -⟩ := generate_places_operations hpaths hok
  rw [hp] at hkeys
  exact ⟨hpaths, by decide +kernel, out, hok, of_decide_eq_true hcount, p, t, sources, hp, ht,
    of_decide_eq_true hkeys, hkeeps⟩

end TypedClients.Generation
