import Mathlib.Data.List.Forall2
import TypedClients.Generation
import TypedClients.Proofs.Report.Outcome

/-!
# The stages of a generation

Generation is a sequence of stages, each of which may fail: a document is taken apart, its
types go into one table, the files are written from it. What each stage returns, and when, is
said here once; a run is read off by `outcome_generate_eq_ok` and the lemmas of the stages.
-/

namespace TypedClients.Generation

variable {d : Document} {limit : Nat} {options : Options} {index : SchemaIndex}
    {style : Endpoints.NameStyle}

theorem outcome_parts_eq_ok {p : Parts} :
    (parts d limit options).outcome = .ok p ↔
      ∃ index os, SchemaIndex.ofDocument d = .ok index ∧ d.operations.outcome = .ok os ∧
        withinLimit limit index os = true ∧
        p = ⟨index, os, Naming.serviceName d.info.title options.serviceName,
          Group.ofOperations (Naming.serviceName d.info.title options.serviceName) options.rules
            options.versions os⟩ := by
  rw [parts, Checked.outcome_bind_eq_ok]
  constructor
  · rintro ⟨index, hindex, h⟩
    obtain ⟨os, hos, h⟩ := Checked.outcome_bind_eq_ok.1 h
    refine ⟨index, os, hindex, hos, ?_⟩
    split at h
    · obtain ⟨_, he, -⟩ := Checked.outcome_bind_eq_ok.1 h
      cases he
    next hlimit =>
      obtain ⟨_, -, h⟩ := Checked.outcome_bind_eq_ok.1 h
      cases h
      exact ⟨by simpa using hlimit, rfl⟩
  · rintro ⟨index, os, hindex, hos, hlimit, rfl⟩
    refine ⟨index, hindex, Checked.outcome_bind_eq_ok.2 ⟨os, hos, ?_⟩⟩
    rw [hlimit]
    exact Checked.outcome_bind_eq_ok.2 ⟨(), rfl, rfl⟩

theorem outcome_addEndpoints_append {t r : TypeTable} {os os' : List Operation} :
    (t.addEndpoints index style (os ++ os')).outcome = .ok r ↔
      ∃ t', (t.addEndpoints index style os).outcome = .ok t' ∧
        (t'.addEndpoints index style os').outcome = .ok r := by
  induction os generalizing t with
  | nil =>
    rw [TypeTable.addEndpoints]
    simp
  | cons o rest ih =>
    rw [List.cons_append, TypeTable.addEndpoints, TypeTable.addEndpoints]
    simp only [Checked.outcome_bind_eq_ok, ih]
    constructor
    · rintro ⟨a, ha, b, hb, c, hc, h⟩
      exact ⟨c, ⟨a, ha, b, hb, hc⟩, h⟩
    · rintro ⟨c, ⟨a, ha, b, hb, hc⟩, h⟩
      exact ⟨a, ha, b, hb, c, hc, h⟩

/-- The groups are registered as if their operations stood in one list. -/
theorem outcome_addGroups_eq_ok {t r : TypeTable} {gs : List Group} :
    (addGroups t index style gs).outcome = .ok r ↔
      (t.addEndpoints index style (gs.flatMap Group.operations)).outcome = .ok r := by
  induction gs generalizing t with
  | nil => exact Iff.rfl
  | cons g rest ih =>
    rw [addGroups, Checked.outcome_bind_eq_ok, List.flatMap_cons, outcome_addEndpoints_append]
    simp only [ih]

theorem outcome_types_eq_ok {p : Parts} {t : TypeTable} {sources : List String} :
    (types p options).outcome = .ok (t, sources) ↔
      ∃ t', (TypeTable.empty.addDefinitions p.index).outcome = .ok (t', sources) ∧
        (t'.addEndpoints p.index options.nameStyle (p.groups.flatMap Group.operations)).outcome =
          .ok t := by
  rw [types, Checked.outcome_bind_eq_ok]
  constructor
  · rintro ⟨⟨t', tags⟩, hdefinitions, h⟩
    obtain ⟨t'', hgroups, h⟩ := Checked.outcome_bind_eq_ok.1 h
    cases h
    exact ⟨t', hdefinitions, outcome_addGroups_eq_ok.1 hgroups⟩
  · rintro ⟨t', hdefinitions, hgroups⟩
    exact ⟨(t', sources), hdefinitions,
      Checked.outcome_bind_eq_ok.2 ⟨t, outcome_addGroups_eq_ok.2 hgroups, rfl⟩⟩

/-- The folder that is written for a group: a file of types, and a file for the client of the
group. -/
def Written (d : Document) (options : Options) (t : TypeTable) (sources : List String) (g : Group)
    (f : FolderOutput) : Prop :=
  ∃ client, g.client t options.nameStyle = .ok client ∧
    f = ⟨g.folder, [
      ⟨typesFileName, GeneratedType.declarations (t.select (sources ++ sourcesOf g))⟩,
      ⟨client.name, client.text g.folder options.transport d.baseUrl⟩]⟩

/-- The class of a client is called as its group says. -/
theorem name_of_client {g : Group} {t : TypeTable} {client : ClientModule}
    (h : g.client t style = .ok client) : client.name = g.clientName := by
  rw [Group.client] at h
  obtain ⟨_, -, h⟩ := bind_eq_ok.1 h
  cases h
  rfl

/-- One folder is written for each group, in order. -/
theorem written_of_folderOutputs {t : TypeTable} {sources : List String} {gs : List Group}
    {folders : List FolderOutput} (h : folderOutputs d options t sources gs = .ok folders) :
    List.Forall₂ (Written d options t sources) gs folders := by
  induction gs generalizing folders with
  | nil =>
    cases h
    exact .nil
  | cons g rest ih =>
    rw [folderOutputs] at h
    obtain ⟨f, hf, h⟩ := bind_eq_ok.1 h
    obtain ⟨others, hothers, h⟩ := bind_eq_ok.1 h
    cases h
    rw [folderOutput] at hf
    obtain ⟨client, hclient, hf⟩ := bind_eq_ok.1 hf
    cases hf
    exact .cons ⟨client, hclient, rfl⟩ (ih hothers)

theorem outcome_generate_eq_ok {out : Output} :
    (d.generate limit options).outcome = .ok out ↔
      ∃ p t sources folders, (parts d limit options).outcome = .ok p ∧
        (types p options).outcome = .ok (t, sources) ∧
        folderOutputs d options t sources p.groups = .ok folders ∧
        out = ⟨p.serviceName, d.family, p.operations.length, folders,
          Preview.text (folders.flatMap FolderOutput.paths)⟩ := by
  rw [Document.generate, Checked.outcome_reporting_eq_ok, Checked.outcome_bind_eq_ok]
  constructor
  · rintro ⟨p, hp, h⟩
    obtain ⟨⟨t, sources⟩, ht, h⟩ := Checked.outcome_bind_eq_ok.1 h
    obtain ⟨folders, hfolders, h⟩ := Checked.outcome_bind_eq_ok.1 h
    cases h
    exact ⟨p, t, sources, folders, hp, ht, hfolders, rfl⟩
  · rintro ⟨p, t, sources, folders, hp, ht, hfolders, rfl⟩
    refine ⟨p, hp, Checked.outcome_bind_eq_ok.2 ⟨(t, sources), ht, ?_⟩⟩
    exact Checked.outcome_bind_eq_ok.2 ⟨folders, hfolders, rfl⟩

end TypedClients.Generation
