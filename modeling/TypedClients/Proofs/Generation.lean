import TypedClients.Proofs.Client.Imports
import TypedClients.Proofs.Generation.TypesFiles
import TypedClients.Proofs.Types.EndpointTypes
import TypedClients.Proofs.Types.FinalNames

/-!
# Members are typed by the types of their own operations

All groups of a document share one table of types. The file of types and the client of a group are
made from it only after all types are in, each by looking tags up again. They agree since a tag
belongs to one operation and keeps its name.

* `typed_of_types`: the tags of every operation lead to types with the bodies that belong to them.
* `generate_fits`: in what is generated, each member answers with the type of its own
  operation, and takes the type of its own request as data; both are imported, and what is
  read in the file of types of the group declares them once.
-/

namespace TypedClients.Generation

open Endpoints (Typed bodies responseBody)

variable {d : Document} {limit : Nat} {options : Options} {index : SchemaIndex}
    {style : Endpoints.NameStyle}

/-! ## One table for all groups -/

theorem outcome_parts {p : Parts} (h : (parts d limit options).outcome = .ok p) :
    d.operations.outcome = .ok p.operations ∧
      (p.groups.flatMap Group.operations).Perm p.operations := by
  obtain ⟨index, operations, -, hoperations, -, rfl⟩ := outcome_parts_eq_ok.1 h
  exact ⟨hoperations, Group.perm_ofOperations _ _ _ operations⟩

/-- The table of a document is sound, and each tag of each operation leads to a type with the body
that belongs to the tag. -/
theorem typed_of_types {p : Parts} {t : TypeTable} {sources : List String}
    (hpaths : (d.paths.map Prod.fst).Nodup) (hp : (parts d limit options).outcome = .ok p)
    (ht : (types p options).outcome = .ok (t, sources)) :
    t.Sound ∧ ∀ g o b, g ∈ p.groups → o ∈ g.operations →
      b ∈ bodies p.index t.referenceNames o → Typed t b := by
  obtain ⟨hoperations, hperm⟩ := outcome_parts hp
  -- grouping only reorders operations, so their keys stay distinct
  have hkeys : ((p.groups.flatMap Group.operations).map Operation.key).Nodup :=
    ((hperm.map Operation.key).nodup_iff).2 (nodup_key_operations hoperations hpaths)
  obtain ⟨t', hdefinitions, hrun⟩ := outcome_types_eq_ok.1 ht
  obtain ⟨rs, rfl, -⟩ := Endpoints.exists_registrations hrun
  refine ⟨(Definitions.sound_addDefinitions hdefinitions).addAll rs, ?_⟩
  intro g o b hg ho hb
  rw [TypeTable.referenceNames_addAll] at hb
  exact Endpoints.typed_of_addEndpoints hrun hkeys (List.mem_flatMap.2 ⟨g, hg, ho⟩) hb

/-! ## Clients and files of types -/

/-- Among declarations there is one with a name, and only one; it has a body. -/
def DeclaredOnce (xs : List Declaration) (name body : String) : Prop :=
  ∃ x, xs.filter (·.name = name) = [x] ∧ x.body = body

/-- How a member, the imports of its client, and what is declared beside it serve an operation. -/
structure Serves (index : SchemaIndex) (t : TypeTable) (xs : List Declaration)
    (imports : List String) (o : Operation) (m : Member) : Prop where
  /-- The member is the one of the operation. -/
  made : ∃ name, Client.member name o t = .ok m
  /-- The member answers with the type of the operation's answer. -/
  answer : ∃ name body, t.nameFor (responseSource o) = some name ∧ m.returnType = name ∧
    name ∈ imports ∧ DeclaredOnce xs name body ∧
    (responseBody o index t.referenceNames).outcome = .ok body
  /-- Unless it is of a kind that sends none, the member takes the type of the operation's request
  as its data. -/
  request : ∀ s, o.requestBody = some s → ∃ name body, t.nameFor (requestSource o) = some name ∧
    DeclaredOnce xs name body ∧ (s.renderOperation index t.referenceNames).outcome = .ok body ∧
    (o.method ≠ .get → m.arguments.filter (·.name = "data") = [⟨"data", name, false⟩] ∧
      name ∈ imports)

/-- A tag whose type is selected leads to a name that is declared once. -/
theorem declaredOnce_select {t : TypeTable} (hsound : t.Sound) {tags : List String} {tag : String}
    (htag : tag ∈ tags) {ty : GeneratedType} (hname : t.nameFor tag = some ty.name)
    (hget : t.get? ty.name = some ty) :
    DeclaredOnce ((t.select tags).map GeneratedType.asRead) ty.name ty.body := by
  refine ⟨ty.asRead, ?_, rfl⟩
  have hone := hsound.filter_select htag hname hget
  rw [List.filter_map]
  exact congrArg (List.map GeneratedType.asRead) hone

theorem sourcesOf_subset {g : Group} {o : Operation} (ho : o ∈ g.operations) {tag : String}
    (h : tag ∈ Endpoints.sourcesOf o) (sources : List String) : tag ∈ sources ++ sourcesOf g :=
  List.mem_append_right _ (List.mem_flatMap.2 ⟨o, ho, h⟩)

/-- The members of a client serve the operations of its group. -/
theorem serves_of_client {t : TypeTable} {g : Group} {client : ClientModule}
    (hsound : t.Sound)
    (htyped : ∀ o b, o ∈ g.operations → b ∈ bodies index t.referenceNames o → Typed t b)
    (h : g.client t style = .ok client) (sources : List String) :
    List.Forall₂ (Serves index t ((declared t sources g).map GeneratedType.asRead) client.imports)
      g.operations client.members := by
  have hmembers := Client.members_of_client h
  refine List.forall₂_iff_zip.2 ⟨hmembers.length_eq, fun {o m} hom => ?_⟩
  obtain ⟨ho, hm⟩ := List.of_mem_zip hom
  obtain ⟨name, hmember⟩ := List.forall₂_zip hmembers hom
  have himport : ∀ ty : GeneratedType, t.get? ty.name = some ty →
      Naming.isIdentifier ty.name.toList = true →
      (m.returnType = ty.name ∨ ∃ a, a ∈ m.arguments ∧ a.name ≠ "options" ∧ a.type = ty.name) →
      ty.name ∈ client.imports := by
    intro ty hget hidentifier hused
    have hcontains : t.contains ty.name = true := by
      rw [TypeTable.contains, hget]
      rfl
    exact Client.mem_imports h hm (Client.mem_memberMentions hidentifier hcontains hused)
  have htag : ∀ b, b ∈ bodies index t.referenceNames o → b.1 ∈ sources ++ sourcesOf g := by
    intro b hb
    refine sourcesOf_subset ho ?_ sources
    rw [← Endpoints.map_fst_bodies t.referenceNames o]
    exact List.mem_map_of_mem hb
  refine ⟨⟨name, hmember⟩, ?_, ?_⟩
  · have hb : (responseSource o, responseBody o index t.referenceNames) ∈
        bodies index t.referenceNames o := List.mem_append_right _ (List.mem_singleton.2 rfl)
    obtain ⟨ty, hname, hget, hbody, hidentifier⟩ := htyped o _ ho hb
    have hreturn : m.returnType = ty.name := by
      rw [Client.returnType_of_member hmember, Client.returnType, hname]
      rfl
    exact ⟨ty.name, ty.body, hname, hreturn, himport ty hget hidentifier (Or.inl hreturn),
      declaredOnce_select hsound (htag _ hb) hname hget, hbody⟩
  · intro s hs
    have hb : (requestSource o, s.renderOperation index t.referenceNames) ∈
        bodies index t.referenceNames o := by
      rw [bodies, hs]
      exact List.mem_append_left _ (List.mem_singleton.2 rfl)
    obtain ⟨ty, hname, hget, hbody, hidentifier⟩ := htyped o _ ho hb
    refine ⟨ty.name, ty.body, hname, declaredOnce_select hsound (htag _ hb) hname hget, hbody,
      fun hmethod => ?_⟩
    have htakes : Client.takesData o = true := by
      rw [Client.takesData, hs, Method.carriesBody, decide_eq_true hmethod]
      rfl
    have hdata : m.arguments.filter (·.name = "data") = [⟨"data", ty.name, false⟩] := by
      rw [Client.data_of_member hmember, Client.dataArguments, htakes, if_pos rfl, hname]
      rfl
    refine ⟨hdata, himport ty hget hidentifier (Or.inr ⟨⟨"data", ty.name, false⟩, ?_, ?_, rfl⟩)⟩
    · have hmem : (⟨"data", ty.name, false⟩ : Argument) ∈ m.arguments.filter (·.name = "data") := by
        rw [hdata]
        exact List.mem_singleton.2 rfl
      exact (List.mem_filter.1 hmem).1
    · exact fun e => absurd e (by decide : ("data" : String) ≠ "options")

/-- The folder of a group: what is declared is read in the text of its first file, and with it the
client serves the operations of the group. -/
structure Fits (d : Document) (options : Options) (index : SchemaIndex) (t : TypeTable) (g : Group)
    (f : FolderOutput) : Prop where
  folder : f.folder = g.folder
  files : ∃ types client xs, g.client t options.nameStyle = .ok client ∧
    f.files = [⟨typesFileName, types⟩,
      ⟨client.name, client.text g.folder options.transport d.baseUrl⟩] ∧
    Declaration.readAll types = some xs ∧
    List.Forall₂ (Serves index t xs client.imports) g.operations client.members

theorem fits_of_folderOutputs {p : Parts} {t : TypeTable} {sources : List String}
    {folders : List FolderOutput} (ht : (types p options).outcome = .ok (t, sources))
    (hsound : t.Sound)
    (htyped : ∀ g o b, g ∈ p.groups → o ∈ g.operations → b ∈ bodies index t.referenceNames o →
      Typed t b)
    (h : folderOutputs d options t sources p.groups = .ok folders) :
    List.Forall₂ (Fits d options index t) p.groups folders := by
  have hwritten := written_of_folderOutputs h
  refine ((List.forall₂_and_left _ _).2 ⟨fun _ hg => hg, hwritten⟩).imp ?_
  rintro g f ⟨hg, client, hclient, rfl⟩
  obtain ⟨types, hfile, hread⟩ := reads_of_types ht
    (f := ⟨g.folder, [⟨typesFileName, GeneratedType.declarations (declared t sources g)⟩,
      ⟨client.name, client.text g.folder options.transport d.baseUrl⟩]⟩) rfl
  cases hfile
  exact ⟨rfl, _, client, _, hclient, rfl, hread,
    serves_of_client hsound (fun o b => htyped g o b hg) hclient sources⟩

/-- Whatever a document with distinct paths generates: all groups share one table of types,
and each folder fits its group. Two tags of operations share a type only if their bodies are
the same. -/
theorem generate_fits {out : Output} (hpaths : (d.paths.map Prod.fst).Nodup)
    (h : (d.generate limit options).outcome = .ok out) :
    ∃ p t sources, (parts d limit options).outcome = .ok p ∧
      (types p options).outcome = .ok (t, sources) ∧
      List.Forall₂ (Fits d options p.index t) p.groups out.folders ∧
      ∀ o o' b b', o ∈ p.groups.flatMap Group.operations → o' ∈ p.groups.flatMap Group.operations →
        b ∈ bodies p.index t.referenceNames o → b' ∈ bodies p.index t.referenceNames o' →
        t.nameFor b.1 = t.nameFor b'.1 → b.2.outcome = b'.2.outcome := by
  rw [Document.generate, Checked.outcome_reporting_eq_ok] at h
  obtain ⟨p, hp, h⟩ := Checked.outcome_bind_eq_ok.1 h
  obtain ⟨⟨t, sources⟩, ht, h⟩ := Checked.outcome_bind_eq_ok.1 h
  obtain ⟨folders, hfolders, h⟩ := Checked.outcome_bind_eq_ok.1 h
  rw [Checked.outcome_ofExcept] at hfolders
  cases h
  obtain ⟨hsound, htyped⟩ := typed_of_types hpaths hp ht
  refine ⟨p, t, sources, hp, ht, fits_of_folderOutputs ht hsound htyped hfolders, ?_⟩
  intro o o' b b' ho ho' hb hb' hsame
  obtain ⟨g, hg, hog⟩ := List.mem_flatMap.1 ho
  obtain ⟨g', hg', hog'⟩ := List.mem_flatMap.1 ho'
  obtain ⟨ty, hname, hget, hbody, -⟩ := htyped g o b hg hog hb
  obtain ⟨ty', hname', hget', hbody', -⟩ := htyped g' o' b' hg' hog' hb'
  rw [hname, hname', Option.some.injEq] at hsame
  rw [hsame, hget', Option.some.injEq] at hget
  rw [hbody, hbody', hget]

/-- A document with one path, two methods, and a query. -/
def petStore : Document where
  family := .swagger2
  versionText := "2.0"
  info := ⟨some "Pets", none, none⟩
  paths :=
    [("/pets/{id}", .map
      [(.str "get", .map [(.str "parameters", .list [.map
          [(.str "name", .str "limit"), (.str "in", .str "query"),
            (.str "type", .str "integer")]])]),
        (.str "delete", .map [])])]
  definitions := [("Pet", .map [(.str "type", .str "object")])]
  baseUrl := defaultBaseUrl
  root := .map []

theorem generate_petStore_fits :
    (petStore.paths.map Prod.fst).Nodup ∧
      ∃ out, (petStore.generate 300 .default).outcome = .ok out ∧
        ∃ p t sources, (parts petStore 300 .default).outcome = .ok p ∧
          (types p .default).outcome = .ok (t, sources) ∧
          List.Forall₂ (Fits petStore .default p.index t) p.groups out.folders := by
  have hpaths : (petStore.paths.map Prod.fst).Nodup := by decide
  have hrun : (petStore.generate 300 .default).outcome.toOption.isSome := by decide +kernel
  obtain ⟨out, hok⟩ := Failure.exists_eq_ok hrun
  obtain ⟨p, t, sources, hp, ht, hfits, -⟩ := generate_fits hpaths hok
  exact ⟨hpaths, out, hok, p, t, sources, hp, ht, hfits⟩

end TypedClients.Generation
