import TypedClients.Proofs.Generation.Parts
import TypedClients.Proofs.Migration.Clients
import TypedClients.Proofs.Migration.Types
import TypedClients.Proofs.Operation.Keys

/-!
# Generation does not depend on the family

What is generated from a document of the older family is generated from its migration too: the
same folders with the same files in them.

* `generate_document`: a migrated document gives the same output.
-/

namespace TypedClients

/-- The references in the schemas that the types of a document are made from. -/
def Document.references (d : Document) : List String :=
  ((SchemaIndex.ofDocument d).toOption.toList.flatMap fun index =>
    index.entries.flatMap fun e => e.2.references) ++
  (d.operations.outcome.toOption.toList.flatMap fun os =>
    os.flatMap fun o => o.schemas.flatMap Schema.references)

namespace Migration

open Value (str list map)

variable {root : Value} {d : Document} {limit : Nat} {options : Options}

/-- A document of the older family that can be migrated: parameters and responses are not kept
elsewhere, bodies are described by objects, no definition is named like a pointer, and no
reference names the place where the newer family keeps its definitions. -/
structure Migratable (d : Document) : Prop where
  family : d.family = .swagger2
  items : ∀ e, e ∈ d.paths → e.2.isMap = true → InlineItem e.2
  names : ∀ e, e ∈ d.definitions → Plain e.1
  references : ∀ ref, ref ∈ d.references → Movable ref

instance (d : Document) : Decidable (Migratable d) :=
  decidable_of_iff (_ ∧ _ ∧ _ ∧ _)
    ⟨fun h => ⟨h.1, h.2.1, h.2.2.1, h.2.2.2⟩, fun h => ⟨h.1, h.2, h.3, h.4⟩⟩

theorem Migratable.moves (h : Migratable d) {index : SchemaIndex}
    (hindex : SchemaIndex.ofDocument d = .ok index) : index.Moves := by
  have hreferences : ∀ e, e ∈ index.entries → ∀ ref, ref ∈ e.2.references → ref ∈ d.references := by
    intro e he ref hr
    rw [Document.references, hindex]
    refine List.mem_append_left _ ?_
    exact List.mem_flatMap.2 ⟨index, List.mem_singleton.2 rfl, List.mem_flatMap.2 ⟨e, he, hr⟩⟩
  have hmovable := fun e he ref hr => h.references ref (hreferences e he ref hr)
  rw [SchemaIndex.ofDocument] at hindex
  obtain ⟨entries, hentries, hindex⟩ := bind_eq_ok.1 hindex
  cases hindex
  refine ⟨congrArg Family.schemaPrefix h.family, fun e he => ?_, hmovable⟩
  have hname : e.1 ∈ d.definitions.map Prod.fst := by
    rw [← SchemaIndex.map_fst_entriesOf hentries]
    exact List.mem_map_of_mem he
  obtain ⟨e', he', hsame⟩ := List.mem_map.1 hname
  exact hsame ▸ h.names e' he'

theorem Migratable.movable_schemas (h : Migratable d) {os : List Operation}
    (hos : d.operations.outcome = .ok os) :
    ∀ o, o ∈ os → ∀ s, s ∈ o.schemas → ∀ ref, ref ∈ s.references → Movable ref := by
  intro o ho s hs ref hr
  refine h.references ref ?_
  rw [Document.references, hos]
  refine List.mem_append_right _ (List.mem_flatMap.2 ⟨os, List.mem_singleton.2 rfl, ?_⟩)
  exact List.mem_flatMap.2 ⟨o, ho, List.mem_flatMap.2 ⟨s, hs, hr⟩⟩

/-- The parts of a document whose references are moved. -/
def movedParts (p : Generation.Parts) : Generation.Parts where
  index := p.index.moved
  operations := p.operations.map Operation.moved
  serviceName := p.serviceName
  groups := p.groups.map Group.moved

theorem outcome_parts_migrated (hm : Migratable d) {p : Generation.Parts}
    (hp : (Generation.parts d limit options).outcome = .ok p) :
    (Generation.parts (d.migrated root) limit options).outcome = .ok (movedParts p) := by
  obtain ⟨index, os, hindex, hos, hlimit, rfl⟩ := Generation.outcome_parts_eq_ok.1 hp
  refine Generation.outcome_parts_eq_ok.2 ⟨index.moved, os.map Operation.moved,
    SchemaIndex.ofDocument_migrated hindex, outcome_operations hm.family hm.items hos, ?_, ?_⟩
  · rw [Generation.withinLimit_moved, hlimit]
  · rw [Group.ofOperations_moved]
    rfl

theorem outcome_types_migrated (hm : Migratable d) {p : Generation.Parts}
    (hp : (Generation.parts d limit options).outcome = .ok p) {t : TypeTable}
    {sources : List String} (ht : (Generation.types p options).outcome = .ok (t, sources)) :
    (Generation.types (movedParts p) options).outcome = .ok (t, sources) := by
  obtain ⟨index, os, hindex, hos, -, rfl⟩ := Generation.outcome_parts_eq_ok.1 hp
  obtain ⟨t₀, hdefinitions, hendpoints⟩ := Generation.outcome_types_eq_ok.1 ht
  have hmoves := hm.moves hindex
  have hgrouped : ∀ gs : List Group, (gs.map Group.moved).flatMap Group.operations =
      (gs.flatMap Group.operations).map Operation.moved := by
    intro gs
    rw [List.flatMap_map, List.map_flatMap]
    rfl
  refine Generation.outcome_types_eq_ok.2
    ⟨t₀, Definitions.outcome_addDefinitions_moved hmoves hdefinitions, ?_⟩
  rw [← hendpoints, movedParts]
  dsimp only
  rw [hgrouped]
  refine Endpoints.outcome_addEndpoints_moved hmoves t₀ fun o ho => ?_
  have hperm := Group.perm_ofOperations (Naming.serviceName d.info.title options.serviceName)
    options.rules options.versions os
  exact hm.movable_schemas hos o (hperm.mem_iff.1 ho)

/-- What a document gives, its migration gives. -/
theorem outcome_generate_migrated (hm : Migratable d) {out : Output}
    (h : (d.generate limit options).outcome = .ok out) :
    ((d.migrated root).generate limit options).outcome = .ok { out with family := .openapi3 } := by
  obtain ⟨p, t, sources, folders, hp, ht, hfolders, rfl⟩ := Generation.outcome_generate_eq_ok.1 h
  refine Generation.outcome_generate_eq_ok.2 ⟨movedParts p, t, sources, folders,
    outcome_parts_migrated hm hp, outcome_types_migrated hm hp ht, ?_, ?_⟩
  · rw [movedParts, Generation.folderOutputs_moved, hfolders]
  · have hcount : (movedParts p).operations.length = p.operations.length := List.length_map _
    rw [hcount]
    rfl

/-- A document and its migration give the same folders with the same files. -/
theorem generate_document {out : Output} (hd : Document.ofValue root = .ok d) (hm : Migratable d)
    (h : (d.generate limit options).outcome = .ok out) :
    ∃ d', Document.ofValue (document root d.baseUrl) = .ok d' ∧ d'.family = .openapi3 ∧
      (d'.generate limit options).outcome = .ok { out with family := .openapi3 } := by
  obtain ⟨root', hroot'⟩ := ofValue_document hd hm.family
  exact ⟨_, hroot', rfl, outcome_generate_migrated hm h⟩

/-- A document with parameters of a path, one of them overridden, a body, a form, answers, and
definitions that refer to each other. -/
def visits : Value :=
  let ref (name : String) : Value := map [(str "$ref", str ("#/definitions/" ++ name))]
  let field (place name kind : String) : Value :=
    map [(str "in", str place), (str "name", str name), (str "type", str kind),
      (str "required", .bool true)]
  map [
    (str "swagger", str "2.0"),
    (str "info", map [(str "title", str "Clinic")]),
    (str "host", str "clinic.example"),
    (str "basePath", str "/api/"),
    (str "paths", map [
      (str "/visits/{id}", map [
        (str "parameters", list [field "path" "id" "integer", field "query" "day" "string"]),
        (str "get", map [
          (str "parameters", list [field "query" "day" "integer"]),
          (str "responses", map [(str "200", map [(str "schema", ref "Visit")])])]),
        (str "put", map [
          (str "parameters", list [map [(str "in", str "body"), (str "name", str "visit"),
            (str "schema", map [(str "type", str "array"), (str "items", ref "Visit")])]]),
          (str "responses", map [(str "204", map [])])])]),
      (str "/visits", map [
        (str "post", map [
          (str "parameters", list [field "formData" "room" "string",
            field "formData" "scan" "file"]),
          (str "responses", map [(str "201", map [(str "schema", ref "Room")])])])])]),
    (str "definitions", map [
      (str "Visit", map [(str "properties",
        map [(str "room", ref "Room"), (str "next", ref "Visit")])]),
      (str "Room", map [(str "type", str "string")])])]

theorem generate_document_visits :
    ∃ d out, Document.ofValue visits = .ok d ∧ Migratable d ∧
      (d.generate 300 .default).outcome = .ok out ∧ out.operationCount = 3 ∧
      ∃ d', Document.ofValue (document visits d.baseUrl) = .ok d' ∧ d'.family = .openapi3 ∧
        (d'.generate 300 .default).outcome = .ok { out with family := .openapi3 } := by
  have hrun : ((Document.ofValue visits).toOption.any fun d => decide (Migratable d) &&
      (d.generate 300 .default).outcome.toOption.any fun out => decide (out.operationCount = 3)) =
        true := by decide +kernel
  obtain ⟨d, hd, hrun⟩ := (Option.any_eq_true _ _).1 hrun
  obtain ⟨hm, hout⟩ := (Bool.and_eq_true _ _).mp hrun
  obtain ⟨out, hout, hcount⟩ := (Option.any_eq_true _ _).1 hout
  have hdocument := Failure.eq_ok_of_toOption hd
  have hok := Failure.eq_ok_of_toOption hout
  exact ⟨d, out, hdocument, of_decide_eq_true hm, hok, of_decide_eq_true hcount,
    generate_document hdocument (of_decide_eq_true hm) hok⟩

end Migration

end TypedClients
