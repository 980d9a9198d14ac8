import TypedClients.Proofs.Client.MemberTypes
import TypedClients.Proofs.Generation
import TypedClients.Proofs.Generation.FixedNames

/-!
# What clients import

A client imports names of types from the file of types beside it. It finds them by scanning
what its members write for words that are names of types in the table that all groups share.
So it imports each type that a member writes; but it also takes a key or a word in a literal
value for the name of a type, if some type, perhaps one of another group, is called like that.

* `declared_of_refers`: a name that stands for a type is declared in the folder of the client,
  or it is the name of a reference that leads nowhere.
* `generate_imports`: what the clients of a document import.
* `imports_roomsByVisit`: a client that imports what is only a key, and what its folder does
  not declare.
-/

namespace TypedClients

open Naming (candidate endsInDigit)

namespace TypeTable

/-- A type that is in the table after registrations with distinct tags was there before, or
has the tag of one of them. -/
theorem origin_of_addAll {t : TypeTable} {rs : List Registration}
    (hnodup : (rs.map Registration.source).Nodup) {x : GeneratedType}
    (hx : x ∈ (t.addAll rs).types) :
    x ∈ t.types ∨ ∃ r, r ∈ rs ∧ (t.addAll rs).nameFor r.source = some x.name := by
  -- from the end, since a registration puts its type behind all others
  induction rs using List.reverseRecOn with
  | nil => exact Or.inl hx
  | append_singleton rs r ih =>
    rw [List.map_append, List.nodup_append] at hnodup
    obtain ⟨hrs, -, hapart⟩ := hnodup
    have hreg := registers_add (t.addAll rs) r
    rw [addAll_concat] at hx ⊢
    have hold : x ∈ (t.addAll rs).types → x ∈ t.types ∨ ∃ r', r' ∈ rs ++ [r] ∧
        ((t.addAll rs).add r.name r.body r.source).nameFor r'.source = some x.name := by
      intro hx
      refine (ih hrs hx).imp_right ?_
      rintro ⟨r', hr', hname⟩
      have hne : r'.source ≠ r.source :=
        hapart _ (List.mem_map_of_mem hr') _ (List.mem_singleton.2 rfl)
      exact ⟨r', List.mem_append_left _ hr', (hreg.others _ hne).trans hname⟩
    rcases hreg.types with hsame | hnew
    · exact hold (hsame ▸ hx)
    · rw [hnew] at hx
      rcases List.mem_append.1 hx with hx | hx
      · exact hold hx
      · rw [List.mem_singleton.1 hx]
        exact Or.inr ⟨r, List.mem_append_right _ (List.mem_singleton.2 rfl), hreg.tagged⟩

end TypeTable

namespace Generation

open Client (Occurs Refers memberTypes parameterReferences)
open Schema (builtinNames)
open TypeText (constantNames)

variable {d : Document} {limit : Nat} {options : Options} {p : Parts} {t : TypeTable}
    {sources : List String}

/-! ## One table for all groups -/

section Table

variable {t₀ : TypeTable} {g : Group} {n : String}
  (hdefinitions : (TypeTable.empty.addDefinitions p.index).outcome = .ok (t₀, sources))
  (hrun : (t₀.addEndpoints p.index options.nameStyle (p.groups.flatMap Group.operations)).outcome =
    .ok t)
include hdefinitions hrun

theorem isIdentifier_of_mem_types {x : GeneratedType} (hx : x ∈ t.types) :
    Naming.isIdentifier x.name.toList = true := by
  obtain ⟨drafts, hdrafts, hreg, -⟩ := Definitions.outcome_addDefinitions.1 hdefinitions
  rcases Endpoints.origin_of_addEndpoints hrun hx with hold | ⟨o, wanted, k, -, hwanted, hname⟩
  · exact Definitions.isIdentifier_of_mem_types hdrafts hreg hold
  · rw [hname]
    refine Naming.isIdentifier_candidate ?_ k
    rcases List.mem_cons.1 hwanted with rfl | hwanted
    · exact Naming.isIdentifier_requestName _ _ _ _
    · rw [List.mem_singleton.1 hwanted]
      exact Naming.isIdentifier_responseName _ _ _ _

variable (hindex : p.index.Proper)
include hindex

/-- The names that the table gives are identifiers. -/
theorem identified_of_types : t.Identified := by
  obtain ⟨drafts, hdrafts, hreg, -⟩ := Definitions.outcome_addDefinitions.1 hdefinitions
  obtain ⟨hsound, -, -⟩ := declares_of_types hindex hdefinitions hrun
  refine ⟨fun n x hx => ?_, fun tag x hx => ?_⟩
  · rw [Endpoints.referenceNames_of_addEndpoints hrun] at hx
    exact Definitions.isIdentifier_of_get? hindex hdrafts hreg
      (Definitions.namedSoFar_own hindex hreg) n x hx
  · obtain ⟨y, hy⟩ := hsound.tagged tag x hx
    rw [← TypeTable.name_of_get? hy]
    exact isIdentifier_of_mem_types hdefinitions hrun (TypeTable.mem_of_get? hy)

/-- The types of definitions are declared for every group. -/
theorem declared_of_mem_first (hg : g ∈ p.groups) (hn : n ∈ t₀.types.map GeneratedType.name) :
    n ∈ (declared t sources g).map GeneratedType.name := by
  obtain ⟨-, -, hdeclares⟩ := declares_of_types hindex hdefinitions hrun
  obtain ⟨own, hsplit, -⟩ := (hdeclares g hg).split
  rw [hsplit, List.map_append]
  exact List.mem_append_left _ hn

/-- A reference in the parameters of a group's operations for which the table has no name. -/
def Dangles (t : TypeTable) (g : Group) (ref : String) : Prop :=
  ref ∈ g.operations.flatMap parameterReferences ∧
    t.referenceNames.get? (Schema.refName ref) = none

/-- The name of a type that an operation brings in is declared in the folder of its group, or
it is the name of a reference that the table has no name for. -/
theorem declared_of_refers (hg : g ∈ p.groups) {o : Operation} (ho : o ∈ g.operations)
    (hn : n ∈ t.types.map GeneratedType.name) (h : Refers t o n) :
    n ∈ (declared t sources g).map GeneratedType.name ∨
      ∃ ref, Dangles t g ref ∧ n = Naming.typeName (Schema.refName ref) := by
  have hfirst := declared_of_mem_first hdefinitions hrun hindex (n := n) hg
  -- no operation asks for a name that is always written
  have hfixed : n ∈ builtinNames ++ constantNames → n ∈ t₀.types.map GeneratedType.name := by
    intro hmem
    have hall : ∀ n, n ∈ builtinNames ++ constantNames → endsInDigit n = false ∧
        ¬ "Request".toList <:+ n.toList ∧ ¬ "Response".toList <:+ n.toList := by decide
    obtain ⟨hdigit, hends⟩ := hall n hmem
    exact mem_first_types hrun hdigit (fun _ => not_mem_wantedNames hends) hn
  rcases h with (hbuiltin | hconstant | ⟨ref, href, rfl⟩) | ⟨tag, htag, hname⟩
  · exact Or.inl (hfirst (hfixed (List.mem_append_left _ hbuiltin)))
  · exact Or.inl (hfirst (hfixed (List.mem_append_right _ hconstant)))
  · obtain ⟨drafts, hdrafts, hreg, -⟩ := Definitions.outcome_addDefinitions.1 hdefinitions
    have hfinal := Definitions.namedSoFar_own hindex hreg
    rw [← Endpoints.referenceNames_of_addEndpoints hrun] at hfinal
    rcases Definitions.referenceName_cases hindex hdrafts hreg hfinal ref with htype
      | ⟨hname, hnone⟩
    · exact Or.inl (hfirst htype)
    · have hget := (Definitions.get?_eq_none_iff hindex hdrafts hreg hfinal _).2 hnone
      exact Or.inr ⟨ref, ⟨List.mem_flatMap.2 ⟨o, ho, href⟩, hget⟩, hname⟩
  · obtain ⟨-, -, hdeclares⟩ := declares_of_types hindex hdefinitions hrun
    exact Or.inl (((hdeclares g hg).names n).2 ⟨tag, sourcesOf_subset ho htag sources, hname⟩)

/-- Each type in the table is declared in the folder of some group. -/
theorem exists_declared (hkeys : ((p.groups.flatMap Group.operations).map Operation.key).Nodup)
    (hg : g ∈ p.groups) (hn : n ∈ t.types.map GeneratedType.name) :
    ∃ g', g' ∈ p.groups ∧ n ∈ (declared t sources g').map GeneratedType.name := by
  obtain ⟨x, hx, rfl⟩ := List.mem_map.1 hn
  obtain ⟨-, -, hdeclares⟩ := declares_of_types hindex hdefinitions hrun
  obtain ⟨rs, rfl, hrs⟩ := Endpoints.exists_registrations hrun
  have hsources := Endpoints.map_source_registrations hrs
  have hnodup : (rs.map TypeTable.Registration.source).Nodup := by
    rw [hsources]
    exact Endpoints.nodup_flatMap_sourcesOf hkeys
  rcases TypeTable.origin_of_addAll hnodup hx with hold | ⟨r, hr, hname⟩
  · exact ⟨g, hg, declared_of_mem_first hdefinitions hrun hindex hg (List.mem_map_of_mem hold)⟩
  · have htag := List.mem_map_of_mem (f := TypeTable.Registration.source) hr
    rw [hsources] at htag
    obtain ⟨o, ho, htag⟩ := List.mem_flatMap.1 htag
    obtain ⟨g', hg', ho⟩ := List.mem_flatMap.1 ho
    exact ⟨g', hg', ((hdeclares g' hg').names _).2 ⟨_, sourcesOf_subset ho htag sources, hname⟩⟩

end Table

/-! ## Imports -/

/-- What the client of a group imports. -/
structure Imports (p : Parts) (t : TypeTable) (sources : List String) (g : Group)
    (client : ClientModule) : Prop where
  /-- It is in increasing order, each name once. -/
  sorted : client.imports.Pairwise (· < ·)
  /-- Each type that a member writes is read as a type. -/
  read : ∀ m, m ∈ client.members → ∀ text, text ∈ memberTypes m → (TypeText.read text).isSome
  /-- Imported are the names of types in the table that stand in these types: for a type, as a
  key without quotes, or in a literal value outside strings. -/
  mem : ∀ n, n ∈ client.imports ↔ n ∈ t.types.map GeneratedType.name ∧
    (Occurs client.members TypeTree.names n ∨ Occurs client.members TypeTree.keyWords n ∨
      Occurs client.members TypeTree.literalWords n)
  /-- A name that stands for a type is declared beside the client, unless it is the name of a
  reference that leads nowhere. -/
  declared : ∀ n, n ∈ client.imports → Occurs client.members TypeTree.names n →
    n ∈ (declared t sources g).map GeneratedType.name ∨
      ∃ ref, Dangles t g ref ∧ n = Naming.typeName (Schema.refName ref)
  /-- All of them are declared, if not beside the client then beside the client of another
  group. -/
  elsewhere : ∀ n, n ∈ client.imports →
    ∃ g', g' ∈ p.groups ∧ n ∈ (Generation.declared t sources g').map GeneratedType.name

theorem imports_of_client {g : Group} {client : ClientModule}
    (hpaths : (d.paths.map Prod.fst).Nodup) (hdefinitions : (d.definitions.map Prod.fst).Nodup)
    (hp : (parts d limit options).outcome = .ok p)
    (ht : (types p options).outcome = .ok (t, sources)) (hg : g ∈ p.groups)
    (h : g.client t options.nameStyle = .ok client) : Imports p t sources g client := by
  obtain ⟨hoperations, hperm⟩ := outcome_parts hp
  have hkeys : ((p.groups.flatMap Group.operations).map Operation.key).Nodup :=
    ((hperm.map Operation.key).nodup_iff).2 (nodup_key_operations hoperations hpaths)
  have hindex : p.index.Proper := by
    obtain ⟨index, os, hindex, -, -, rfl⟩ := outcome_parts_eq_ok.1 hp
    exact SchemaIndex.proper_ofDocument hindex hdefinitions
  obtain ⟨t₀, hfirst, hrun⟩ := outcome_types_eq_ok.1 ht
  have hidentified := identified_of_types hfirst hrun hindex
  have hmem := fun n => Client.mem_imports_iff (n := n) hidentified h
  refine ⟨?_, fun m hm text htext => ?_, hmem, fun n hn hoccurs => ?_, fun n hn => ?_⟩
  · rw [Group.client] at h
    obtain ⟨ms, -, h⟩ := bind_eq_ok.1 h
    cases h
    exact Text.pairwise_sortedNames _
  · obtain ⟨o, -, δ, hworded, -⟩ := Client.belongs_of_client hidentified h hm htext
    obtain ⟨τ, hτ, -, -⟩ := hworded.read
    rw [hτ]
    rfl
  · obtain ⟨o, ho, hrefers⟩ := Client.refers_of_occurs hidentified h hoccurs
    exact declared_of_refers hfirst hrun hindex hg ho ((hmem n).1 hn).1 hrefers
  · exact exists_declared hfirst hrun hindex hkeys hg ((hmem n).1 hn).1

/-- Whatever a document generates, the client of each group imports, in order and once each,
the names of types that stand in what its members write, keys and literal values included.
Those that stand for types are declared beside it, unless a reference leads nowhere. -/
theorem generate_imports {out : Output} (hpaths : (d.paths.map Prod.fst).Nodup)
    (hdefinitions : (d.definitions.map Prod.fst).Nodup)
    (h : (d.generate limit options).outcome = .ok out) :
    ∃ p t sources, (parts d limit options).outcome = .ok p ∧
      (types p options).outcome = .ok (t, sources) ∧
      List.Forall₂ (fun g f => ∃ client, g.client t options.nameStyle = .ok client ∧
        Reads f ((declared t sources g).map GeneratedType.asRead) ∧
        f.files = [⟨typesFileName, GeneratedType.declarations (declared t sources g)⟩,
          ⟨client.name, client.text g.folder options.transport d.baseUrl⟩] ∧
        Imports p t sources g client) p.groups out.folders := by
  obtain ⟨p, t, sources, folders, hp, ht, hfolders, rfl⟩ := outcome_generate_eq_ok.1 h
  refine ⟨p, t, sources, hp, ht, ?_⟩
  have hwritten := written_of_folderOutputs hfolders
  refine ((List.forall₂_and_left _ _).2 ⟨fun _ hg => hg, hwritten⟩).imp ?_
  rintro g f ⟨hg, client, hclient, rfl⟩
  exact ⟨client, hclient, reads_of_types ht rfl, rfl, imports_of_client hpaths hdefinitions
    hp ht hg hclient⟩

/-- A document with two groups. An operation of the second one has a query parameter that is
called like the type of what the operation of the first one answers. -/
def roomsByVisit : Document where
  family := .swagger2
  versionText := "2.0"
  info := ⟨some "Clinic", none, none⟩
  paths :=
    [("/visits", .map [(.str "get", .map [])]),
      ("/staff/rooms/list", .map [(.str "get", .map [(.str "parameters", .list
        [.map [(.str "name", .str "kinds"), (.str "in", .str "query"), (.str "type", .str "array"),
            (.str "items", .map [(.str "$ref", .str "#/definitions/RoomKind")])],
          .map [(.str "name", .str "getVisitsResponse"), (.str "in", .str "query"),
            (.str "type", .str "string")]])])])]
  definitions := [("RoomKind", .map [(.str "type", .str "string"),
    (.str "enum", .list [.str "ward", .str "surgery"])])]
  baseUrl := defaultBaseUrl
  root := .map []

theorem generate_imports_roomsByVisit :
    (roomsByVisit.paths.map Prod.fst).Nodup ∧ (roomsByVisit.definitions.map Prod.fst).Nodup ∧
      ∃ out, (roomsByVisit.generate 300 .default).outcome = .ok out ∧
        ∃ p t sources, (parts roomsByVisit 300 .default).outcome = .ok p ∧
          (types p .default).outcome = .ok (t, sources) ∧
          List.Forall₂ (fun g f => ∃ client, g.client t Options.default.nameStyle = .ok client ∧
            Reads f ((declared t sources g).map GeneratedType.asRead) ∧
            f.files = [⟨typesFileName, GeneratedType.declarations (declared t sources g)⟩,
              ⟨client.name, client.text g.folder Options.default.transport roomsByVisit.baseUrl⟩] ∧
            Imports p t sources g client) p.groups out.folders := by
  have hpaths : (roomsByVisit.paths.map Prod.fst).Nodup := by decide
  have hdefinitions : (roomsByVisit.definitions.map Prod.fst).Nodup := by decide
  have hrun : (roomsByVisit.generate 300 .default).outcome.toOption.isSome := by decide +kernel
  obtain ⟨out, hok⟩ := Failure.exists_eq_ok hrun
  exact ⟨hpaths, hdefinitions, out, hok, generate_imports hpaths hdefinitions hok⟩

/-- The client of its second group imports `getVisitsResponse`, which is only a key in the
types that its member writes, and which is not declared beside it. -/
theorem imports_roomsByVisit :
    ∃ out p t sources g client, (roomsByVisit.generate 300 .default).outcome = .ok out ∧
      (parts roomsByVisit 300 .default).outcome = .ok p ∧
      (types p .default).outcome = .ok (t, sources) ∧ p.groups[1]? = some g ∧
      g.client t Options.default.nameStyle = .ok client ∧
      client.imports = ["RoomKind", "getStaffRoomsListResponse", "getVisitsResponse"] ∧
      ¬ Occurs client.members TypeTree.names "getVisitsResponse" ∧
      "getVisitsResponse" ∉ (declared t sources g).map GeneratedType.name := by
  have hrun : (roomsByVisit.generate 300 .default).outcome.toOption.isSome := by decide +kernel
  have hclient : ((parts roomsByVisit 300 .default).outcome.toOption.bind fun p =>
      (types p .default).outcome.toOption.bind fun r => p.groups[1]?.bind fun g =>
        (g.client r.1 Options.default.nameStyle).toOption.map fun client =>
          (client.imports, client.members.flatMap memberTypes,
            (declared r.1 r.2 g).map GeneratedType.name)) =
      some (["RoomKind", "getStaffRoomsListResponse", "getVisitsResponse"],
        ["\x7b kinds?: RoomKind[]; getVisitsResponse?: string \x7d", "getStaffRoomsListResponse"],
        ["RoomKind", "getStaffRoomsListResponse"]) := by decide +kernel
  have hread : ∀ text, text ∈ ["\x7b kinds?: RoomKind[]; getVisitsResponse?: string \x7d",
      "getStaffRoomsListResponse"] →
      (TypeText.read text).all (fun τ => "getVisitsResponse" ∉ τ.names) = true := by decide +kernel
  obtain ⟨out, hout⟩ := Failure.exists_eq_ok hrun
  obtain ⟨p, hp, hclient⟩ := Option.bind_eq_some_iff.1 hclient
  obtain ⟨⟨t, sources⟩, ht, hclient⟩ := Option.bind_eq_some_iff.1 hclient
  obtain ⟨g, hg, hclient⟩ := Option.bind_eq_some_iff.1 hclient
  obtain ⟨client, hok, hclient⟩ := Option.map_eq_some_iff.1 hclient
  obtain ⟨himports, hclient⟩ := Prod.mk.inj hclient
  obtain ⟨htypes, hdeclared⟩ := Prod.mk.inj hclient
  refine ⟨out, p, t, sources, g, client, hout,
    Failure.eq_ok_of_toOption hp, Failure.eq_ok_of_toOption ht, hg, Failure.eq_ok_of_toOption hok,
    himports, ?_, ?_⟩
  · rintro ⟨m, hm, text, htext, τ, hτ, hn⟩
    have hall := hread text (htypes ▸ List.mem_flatMap.2 ⟨m, hm, htext⟩)
    rw [hτ] at hall
    exact of_decide_eq_true hall hn
  · rw [hdeclared]
    decide

end Generation

end TypedClients
