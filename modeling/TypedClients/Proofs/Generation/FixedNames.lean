import TypedClients.Proofs.Generation.TypesFiles
import TypedClients.Proofs.TypeText.Names
import TypedClients.Proofs.Types.WantedNames

/-!
# When a fixed name is declared anew

Generated text is written with names that mean the same in every file: the scalar types,
`Record` and `File` in types, `Promise` and the names of the transport in clients. Only the
last ones are kept from generated types. Any other one is taken by a definition with this type
name, and then stands for that definition wherever it is written.

* `declared_fixedName_iff`: a fixed name is declared exactly if it is none of the transport's
  and the type name of a definition. Requests and answers never have one.
* `generate_captures_definitions`: so it is in every folder of a generation, for files of
  types and clients.
* `generate_captures_record`: a document in which the dictionary type is captured.
-/

namespace TypedClients.Generation

open Naming (candidate endsInDigit typeName)

variable {d : Document} {limit : Nat} {options : Options} {p : Parts} {t : TypeTable}
    {sources : List String}

/-- The names that generated text is written with, whatever a document says: those in types,
those that clients import from the transport, and the type of what their members return. -/
def fixedNames : List String := Schema.builtinNames ++ transportNames ++ ["Promise"]

theorem endsInDigit_fixedName {n : String} (h : n ∈ fixedNames) : endsInDigit n = false := by
  have hall : ∀ n, n ∈ fixedNames → endsInDigit n = false := by decide
  exact hall n h

/-- The types of operations ask for names that tell what they are of. -/
theorem not_mem_wantedNames {style : Endpoints.NameStyle} {o : Operation} {n : String}
    (h : ¬ "Request".toList <:+ n.toList ∧ ¬ "Response".toList <:+ n.toList) :
    n ∉ Endpoints.wantedNames style o := by
  intro hmem
  rcases List.mem_cons.1 hmem with rfl | hmem
  · refine h.1 ?_
    rw [Naming.requestName, String.toList_append]
    exact List.suffix_append _ _
  · rw [List.mem_singleton.1 hmem] at h
    refine h.2 ?_
    rw [Naming.responseName, String.toList_append]
    exact List.suffix_append _ _

theorem fixedName_not_mem_wantedNames {style : Endpoints.NameStyle} {o : Operation} {n : String}
    (h : n ∈ fixedNames) : n ∉ Endpoints.wantedNames style o := by
  have hends : ∀ n, n ∈ fixedNames →
      ¬ "Request".toList <:+ n.toList ∧ ¬ "Response".toList <:+ n.toList := by decide
  exact not_mem_wantedNames (hends n h)

/-- A definition of the document has a fixed name as its type name, and may have it. -/
def TakenBy (index : SchemaIndex) (n : String) : Prop :=
  n ∉ transportNames ∧ ∃ e, e ∈ index.own ∧ typeName e.1 = n

/-- A name of a type that ends in no digit, and that no operation asks for, is that of a
definition's. -/
theorem mem_first_types {t₀ : TypeTable}
    (hrun : (t₀.addEndpoints p.index options.nameStyle
      (p.groups.flatMap Group.operations)).outcome = .ok t) {n : String}
      (hn : endsInDigit n = false)
    (hwanted : ∀ o, n ∉ Endpoints.wantedNames options.nameStyle o)
    (hmem : n ∈ t.types.map GeneratedType.name) : n ∈ t₀.types.map GeneratedType.name := by
  obtain ⟨x, hx, rfl⟩ := List.mem_map.1 hmem
  rcases Endpoints.origin_of_addEndpoints hrun hx with hold | ⟨o, wanted, k, -, hmine, hname⟩
  · exact List.mem_map_of_mem hold
  · obtain rfl := Naming.eq_of_candidate hname hn
    exact absurd hmine (hwanted o)

/-- The types of operations add no fixed name to those of the definitions. -/
theorem mem_types_fixedName_iff {t₀ : TypeTable} (hindex : p.index.Proper)
    (hdefinitions : (TypeTable.empty.addDefinitions p.index).outcome = .ok (t₀, sources))
    (hrun : (t₀.addEndpoints p.index options.nameStyle
      (p.groups.flatMap Group.operations)).outcome = .ok t) {n : String} (hn : n ∈ fixedNames) :
    (n ∈ t₀.types.map GeneratedType.name ↔ TakenBy p.index n) ∧
      (n ∈ t.types.map GeneratedType.name → n ∈ t₀.types.map GeneratedType.name) :=
  ⟨Definitions.mem_types_iff_of_addDefinitions hindex hdefinitions (endsInDigit_fixedName hn),
    mem_first_types hrun (endsInDigit_fixedName hn) fun _ => fixedName_not_mem_wantedNames hn⟩

/-- In the file of types of each group, a fixed name is declared exactly if a definition takes
it. -/
theorem declared_fixedName_iff (hindex : p.index.Proper)
    (ht : (types p options).outcome = .ok (t, sources)) {g : Group} (hg : g ∈ p.groups) {n : String}
    (hn : n ∈ fixedNames) :
    (n ∈ (declared t sources g).map GeneratedType.name ↔ TakenBy p.index n) ∧
      (n ∈ t.types.map GeneratedType.name → TakenBy p.index n) := by
  obtain ⟨t₀, hdefinitions, hrun⟩ := outcome_types_eq_ok.1 ht
  obtain ⟨hdefined, hadded⟩ := mem_types_fixedName_iff hindex hdefinitions hrun hn
  obtain ⟨-, -, hdeclares⟩ := declares_of_types hindex hdefinitions hrun
  obtain ⟨own, hsplit, -⟩ := (hdeclares g hg).split
  refine ⟨⟨fun hmem => ?_, fun htaken => ?_⟩, fun hmem => hdefined.1 (hadded hmem)⟩
  · exact hdefined.1 (hadded (((hdeclares g hg).ordered.map _).subset hmem))
  -- the types of definitions stand in every file
  · rw [hsplit, List.map_append]
    exact List.mem_append_left _ (hdefined.2 htaken)

/-- What a client imports are names of types. -/
theorem mem_types_of_mem_imports {g : Group} {style : Endpoints.NameStyle} {client : ClientModule}
    (h : g.client t style = .ok client) {n : String} (hn : n ∈ client.imports) :
    n ∈ t.types.map GeneratedType.name := by
  rw [Group.client] at h
  obtain ⟨ms, -, h⟩ := bind_eq_ok.1 h
  cases h
  obtain ⟨m, -, hn⟩ := List.mem_flatMap.1 (Text.mem_sortedNames.1 hn)
  obtain ⟨text, -, hn⟩ := List.mem_flatMap.1 hn
  obtain ⟨x, hx⟩ := Option.isSome_iff_exists.1 (List.mem_filter.1 hn).2
  exact List.mem_map.2 ⟨x, TypeTable.mem_of_get? hx, TypeTable.name_of_get? hx⟩

/-- The class of a client has a fixed name only if it is called like the transport itself. -/
theorem clientName_eq_fixedName_iff (g : Group) {n : String} (hn : n ∈ fixedNames) :
    g.clientName = n ↔ n = "BaseAPIClient" ∧ String.join g.folder = "BaseAPI" := by
  have hends : ∀ n, n ∈ fixedNames → "Client".toList <:+ n.toList → n = "BaseAPIClient" := by decide
  constructor
  · rintro rfl
    have hname : g.clientName = "BaseAPI" ++ "Client" := by
      refine hends _ hn ?_
      rw [Group.clientName, String.toList_append]
      exact List.suffix_append _ _
    refine ⟨hname, ?_⟩
    rw [Group.clientName, ← String.toList_inj, String.toList_append, String.toList_append] at hname
    exact String.toList_inj.1 (List.append_cancel_right hname)
  · rintro ⟨rfl, hfolder⟩
    rw [Group.clientName, hfolder]
    rfl

/-- Where a fixed name gets another meaning in the folder of a group. -/
structure Captures (p : Parts) (t : TypeTable) (sources : List String) (g : Group)
    (client : ClientModule) : Prop where
  /-- In the file of types it is declared exactly if a definition takes it. -/
  types : ∀ n, n ∈ fixedNames →
    (n ∈ (declared t sources g).map GeneratedType.name ↔ TakenBy p.index n)
  /-- A client imports it only if a definition takes it; so it never imports a name of the
  transport from the types. -/
  imports : ∀ n, n ∈ fixedNames → n ∈ client.imports → TakenBy p.index n
  /-- The class itself has none of them, but for the name of the transport. -/
  name : ∀ n, n ∈ fixedNames →
    (client.name = n ↔ n = "BaseAPIClient" ∧ String.join g.folder = "BaseAPI")

/-- Whatever a document generates, a fixed name keeps its meaning in all files of types and in
what clients import, unless it is none of the transport's and a definition has it as its type
name; in this case every file of types declares it. -/
theorem generate_captures_definitions {out : Output}
    (hdefinitions : (d.definitions.map Prod.fst).Nodup)
    (h : (d.generate limit options).outcome = .ok out) :
    ∃ p t sources, (parts d limit options).outcome = .ok p ∧
      (types p options).outcome = .ok (t, sources) ∧
      List.Forall₂ (fun g f => ∃ client, f.folder = g.folder ∧
        Reads f ((declared t sources g).map GeneratedType.asRead) ∧
        f.files = [⟨typesFileName, GeneratedType.declarations (declared t sources g)⟩,
          ⟨client.name, client.text g.folder options.transport d.baseUrl⟩] ∧
        Captures p t sources g client) p.groups out.folders := by
  obtain ⟨p, t, sources, folders, hp, ht, hfolders, rfl⟩ := outcome_generate_eq_ok.1 h
  have hindex : p.index.Proper := by
    obtain ⟨index, os, hindex, -, -, rfl⟩ := outcome_parts_eq_ok.1 hp
    exact SchemaIndex.proper_ofDocument hindex hdefinitions
  refine ⟨p, t, sources, hp, ht, ?_⟩
  have hwritten := written_of_folderOutputs hfolders
  refine ((List.forall₂_and_left _ _).2 ⟨fun _ hg => hg, hwritten⟩).imp ?_
  rintro g f ⟨hg, client, hclient, rfl⟩
  refine ⟨client, rfl, reads_of_types ht rfl, rfl,
    fun n hn => (declared_fixedName_iff hindex ht hg hn).1, ?_, ?_⟩
  · intro n hn hmem
    exact (declared_fixedName_iff hindex ht hg hn).2 (mem_types_of_mem_imports hclient hmem)
  · intro n hn
    rw [name_of_client hclient]
    exact clientName_eq_fixedName_iff g hn

/-- A document with one operation, and with two definitions: a dictionary, and an object that
is called a record. -/
def labelsAndRecord : Document where
  family := .swagger2
  versionText := "2.0"
  info := ⟨some "Clinic", none, none⟩
  paths := [("/visits", .map [(.str "get", .map [])])]
  definitions :=
    [("record", .map [(.str "properties", .map
        [(.str "note", .map [(.str "type", .str "string")])])]),
      ("Labels", .map [(.str "type", .str "object"),
        (.str "additionalProperties", .map [(.str "type", .str "string")])])]
  baseUrl := defaultBaseUrl
  root := .map []

theorem generate_captures_in_labelsAndRecord :
    (labelsAndRecord.definitions.map Prod.fst).Nodup ∧
      ∃ out, (labelsAndRecord.generate 300 .default).outcome = .ok out ∧
        ∃ p t sources, (parts labelsAndRecord 300 .default).outcome = .ok p ∧
          (types p .default).outcome = .ok (t, sources) ∧
          List.Forall₂ (fun g f => ∃ client, f.folder = g.folder ∧
            Reads f ((declared t sources g).map GeneratedType.asRead) ∧
            f.files = [⟨typesFileName, GeneratedType.declarations (declared t sources g)⟩,
              ⟨client.name, client.text g.folder Options.default.transport
                labelsAndRecord.baseUrl⟩] ∧
            Captures p t sources g client) p.groups out.folders := by
  have hdefinitions : (labelsAndRecord.definitions.map Prod.fst).Nodup := by decide
  have hrun : (labelsAndRecord.generate 300 .default).outcome.toOption.isSome := by decide +kernel
  obtain ⟨out, hok⟩ := Failure.exists_eq_ok hrun
  exact ⟨hdefinitions, out, hok, generate_captures_definitions hdefinitions hok⟩

/-- The types of its one group declare `Record` as an object, and write the dictionary with
this name. -/
theorem generate_captures_record :
    ∃ out p t sources g τ, (labelsAndRecord.generate 300 .default).outcome = .ok out ∧
      (parts labelsAndRecord 300 .default).outcome = .ok p ∧
      (types p .default).outcome = .ok (t, sources) ∧ p.groups = [g] ∧
      "Record" ∈ fixedNames ∧
      ⟨"Record", "{ note?: string }", "schema:record"⟩ ∈ declared t sources g ∧
      ⟨"Labels", "Record<string, string>", "schema:Labels"⟩ ∈ declared t sources g ∧
      TypeText.read "Record<string, string>" = some τ ∧ "Record" ∈ τ.names := by
  have hrun : (labelsAndRecord.generate 300 .default).outcome.toOption.isSome := by decide +kernel
  have htypes : ((parts labelsAndRecord 300 .default).outcome.toOption.bind fun p =>
      (types p .default).outcome.toOption.bind fun r =>
        p.groups.head?.map fun g => (p.groups.length, declared r.1 r.2 g)) =
      some (1, [⟨"Record", "{ note?: string }", "schema:record"⟩,
        ⟨"Labels", "Record<string, string>", "schema:Labels"⟩,
        ⟨"getVisitsResponse", "any", "endpoint:GET:/visits:response"⟩]) := by decide +kernel
  have hread : (TypeText.read "Record<string, string>").any (fun τ => "Record" ∈ τ.names) =
    true := by
    decide +kernel
  obtain ⟨out, hout⟩ := Failure.exists_eq_ok hrun
  obtain ⟨p, hp, htypes⟩ := Option.bind_eq_some_iff.1 htypes
  obtain ⟨⟨t, sources⟩, ht, htypes⟩ := Option.bind_eq_some_iff.1 htypes
  obtain ⟨g, hg, hdeclared⟩ := Option.map_eq_some_iff.1 htypes
  obtain ⟨hone, htypes⟩ := Prod.mk.inj hdeclared
  obtain ⟨τ, hτ, hnames⟩ := (Option.any_eq_true _ _).1 hread
  refine ⟨out, p, t, sources, g, τ, hout, Failure.eq_ok_of_toOption hp,
    Failure.eq_ok_of_toOption ht, ?_, by decide, ?_, ?_, hτ, of_decide_eq_true hnames⟩
  · obtain ⟨g', hgroups⟩ := List.length_eq_one_iff.1 hone
    rw [hgroups] at hg ⊢
    rw [Option.some.inj hg]
  · rw [htypes]
    exact List.mem_cons_self
  · rw [htypes]
    exact List.mem_cons_of_mem _ List.mem_cons_self

end TypedClients.Generation
