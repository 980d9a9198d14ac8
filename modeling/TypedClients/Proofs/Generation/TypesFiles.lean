import TypedClients.Proofs.Client.Imports
import TypedClients.Proofs.Generation.Parts
import TypedClients.Proofs.Types.Declarations
import TypedClients.Proofs.Types.Selection

/-!
# What each file of types declares

The file of types of a group is cut out of the table of all types once that table is complete.
It has the types of all definitions in front and the types of the group's own operations
behind them, all in the order of the table, so files of different groups never disagree about
a name. What a file declares is what is read in its text.

* `declares_of_folderOutputs`: the file of each group declares what the tags of the group select.
* `reads_of_types`: these declarations are read back from the text of the file.
* `generate_declares_types`: which names they have, in which order, and that a name is
  declared in the same words in every file.
-/

namespace TypedClients.Generation

variable {d : Document} {limit : Nat} {options : Options} {t : TypeTable} {sources : List String}

/-- The types that are declared in the folder of a group. -/
def declared (t : TypeTable) (sources : List String) (g : Group) : List GeneratedType :=
  t.select (sources ++ sourcesOf g)

/-- The first file of a group's folder declares the types of the group. -/
theorem declares_of_folderOutputs {gs : List Group} {folders : List FolderOutput}
    (h : folderOutputs d options t sources gs = .ok folders) :
    List.Forall₂ (fun g f => f.folder = g.folder ∧ f.files.head? =
      some ⟨typesFileName, GeneratedType.declarations (declared t sources g)⟩) gs folders := by
  refine (written_of_folderOutputs h).imp ?_
  rintro g f ⟨client, -, rfl⟩
  exact ⟨rfl, rfl⟩

/-- What is read in the file of types of a folder, which is its first one. -/
def Reads (f : FolderOutput) (xs : List Declaration) : Prop :=
  ∃ text, f.files.head? = some ⟨typesFileName, text⟩ ∧ Declaration.readAll text = some xs

/-- The file of types of a group is read as the declarations of its types. -/
theorem reads_of_types {p : Parts} (ht : (types p options).outcome = .ok (t, sources)) {g : Group}
    {f : FolderOutput} (hfile : f.files.head? =
      some ⟨typesFileName, GeneratedType.declarations (declared t sources g)⟩) :
    Reads f ((declared t sources g).map GeneratedType.asRead) := by
  obtain ⟨t₀, hdefinitions, hrun⟩ := outcome_types_eq_ok.1 ht
  obtain ⟨drafts, hdrafts, hreg, -⟩ := Definitions.outcome_addDefinitions.1 hdefinitions
  have hstart := Definitions.identified_of_drafts hdrafts hreg Definitions.writes_shaped
  have hdeclarable := Endpoints.declarable_of_addEndpoints hstart hrun
  exact ⟨_, hfile, Declaration.readAll_declarations fun x hx =>
    hdeclarable x (TypeTable.mem_select.1 hx).1⟩

/-- Whatever is read in a file of types is the declaration of a type of the table. -/
theorem exists_type_of_reads {p : Parts} (ht : (types p options).outcome = .ok (t, sources))
    {gs : List Group} {folders : List FolderOutput}
    (hfiles : List.Forall₂ (fun g f => f.folder = g.folder ∧ f.files.head? =
      some ⟨typesFileName, GeneratedType.declarations (declared t sources g)⟩) gs folders)
    {f : FolderOutput} (hf : f ∈ folders) {xs : List Declaration} (hxs : Reads f xs)
    {x : Declaration} (hx : x ∈ xs) : ∃ y, y ∈ t.types ∧ y.asRead = x := by
  obtain ⟨i, hi, rfl⟩ := List.getElem_of_mem hf
  have hfile := (List.forall₂_iff_get.1 hfiles).2 i (hfiles.length_eq ▸ hi) hi
  obtain ⟨text, htext, hread⟩ := hxs
  obtain ⟨text', htext', hread'⟩ := reads_of_types ht hfile.2
  rw [List.get_eq_getElem, htext, Option.some.injEq, GeneratedFile.mk.injEq] at htext'
  rw [← htext'.2, hread, Option.some.injEq] at hread'
  rw [hread'] at hx
  obtain ⟨y, hy, rfl⟩ := List.mem_map.1 hx
  exact ⟨y, (TypeTable.mem_select.1 hy).1, rfl⟩

/-- What is declared for a group: `first` are the types of the definitions. -/
structure Declares (t : TypeTable) (sources : List String) (first : List GeneratedType)
    (g : Group) : Prop where
  /-- The names that are declared are the final names of the definitions and of what the
  operations of the group are sent and answer; each of these has one. -/
  names : ∀ name, name ∈ (declared t sources g).map GeneratedType.name ↔
    ∃ tag, tag ∈ sources ++ sourcesOf g ∧ t.nameFor tag = some name
  named : ∀ tag, tag ∈ sources ++ sourcesOf g → (t.nameFor tag).isSome
  /-- Each is declared once, in the order of the table. -/
  once : ((declared t sources g).map GeneratedType.name).Nodup
  ordered : (declared t sources g).Sublist t.types
  /-- The types of definitions come first; none of those behind them has the name of a
  definition. -/
  split : ∃ own, declared t sources g = first ++ own ∧
    (∀ x, x ∈ first → ∃ tag, tag ∈ sources ∧ t.nameFor tag = some x.name) ∧
    ∀ x tag, x ∈ own → tag ∈ sources → t.nameFor tag ≠ some x.name

/-- The table of a document begins with the types of the definitions, and gives each tag of a
definition and of an operation a name. -/
theorem declares_of_types {p : Parts} (hindex : p.index.Proper) {t₀ : TypeTable}
    (hdefinitions : (TypeTable.empty.addDefinitions p.index).outcome = .ok (t₀, sources))
    (hrun : (t₀.addEndpoints p.index options.nameStyle
      (p.groups.flatMap Group.operations)).outcome = .ok t) :
    t.Sound ∧ sources = p.index.own.map (fun e => schemaSource e.1) ∧
      ∀ g, g ∈ p.groups → Declares t sources t₀.types g := by
  have hsound₀ := Definitions.sound_addDefinitions hdefinitions
  have hsound : t.Sound := by
    obtain ⟨rs, rfl, -⟩ := Endpoints.exists_registrations hrun
    exact hsound₀.addAll rs
  obtain ⟨hstart, hkept, hown⟩ := Endpoints.kept_of_addEndpoints hrun
  obtain ⟨hnamed, horigin⟩ := Definitions.origin_of_addDefinitions hindex hdefinitions
  obtain ⟨-, -, -, hsources⟩ := Definitions.outcome_addDefinitions.1 hdefinitions
  -- the types of operations leave the names of definitions as they are
  have hsame : ∀ tag, tag ∈ sources → t.nameFor tag = t₀.nameFor tag := by
    intro tag htag
    rw [← hsources] at htag
    obtain ⟨e, -, rfl⟩ := List.mem_map.1 htag
    exact hkept e.1
  refine ⟨hsound, hsources.symm, fun g hg => ?_⟩
  obtain ⟨own, hsplit, hothers⟩ := hsound₀.select_split hsound hstart hsame horigin (sourcesOf g)
  refine ⟨fun name => hsound.mem_map_name_select, fun tag htag => ?_, ?_, List.filter_sublist,
    own, hsplit, fun x hx => ?_, fun x tag => hothers x tag⟩
  · rcases List.mem_append.1 htag with htag | htag
    · rw [hsame tag htag]
      exact hnamed tag htag
    · obtain ⟨o, ho, htag⟩ := List.mem_flatMap.1 htag
      exact hown o tag (List.mem_flatMap.2 ⟨g, hg, ho⟩) htag
  · exact hsound.nodup.sublist (List.filter_sublist.map _)
  · obtain ⟨tag, htag, hname⟩ := horigin x hx
    exact ⟨tag, htag, (hsame tag htag).trans hname⟩

/-- A generation writes a file of types for each group. What is read in it are the final names
of all definitions and of the group's own requests and answers, once each and in the order of
the table, those of the definitions first. Where two files declare one name, they declare it
in the same words. -/
theorem generate_declares_types {out : Output}
    (hdefinitions : (d.definitions.map Prod.fst).Nodup)
    (h : (d.generate limit options).outcome = .ok out) :
    ∃ p t sources first, (parts d limit options).outcome = .ok p ∧
      (types p options).outcome = .ok (t, sources) ∧
      sources = p.index.own.map (fun e => schemaSource e.1) ∧
      List.Forall₂ (fun g f => f.folder = g.folder ∧
        Reads f ((declared t sources g).map GeneratedType.asRead) ∧ Declares t sources first g)
        p.groups out.folders ∧
      ∀ f f' xs xs' x x', f ∈ out.folders → f' ∈ out.folders → Reads f xs → Reads f' xs' →
        x ∈ xs → x' ∈ xs' → x.name = x'.name → x.text = x'.text := by
  obtain ⟨p, t, sources, folders, hp, ht, hfolders, rfl⟩ := outcome_generate_eq_ok.1 h
  have hindex : p.index.Proper := by
    obtain ⟨index, os, hindex, -, -, rfl⟩ := outcome_parts_eq_ok.1 hp
    exact SchemaIndex.proper_ofDocument hindex hdefinitions
  obtain ⟨t₀, hdefined, hrun⟩ := outcome_types_eq_ok.1 ht
  obtain ⟨hsound, hsources, hdeclares⟩ := declares_of_types hindex hdefined hrun
  have hfiles := declares_of_folderOutputs hfolders
  refine ⟨p, t, sources, t₀.types, hp, ht, hsources, ?_, ?_⟩
  · refine ((List.forall₂_and_left _ _).2 ⟨fun _ hg => hg, hfiles⟩).imp ?_
    rintro g f ⟨hg, hfolder, hfile⟩
    exact ⟨hfolder, reads_of_types ht hfile, hdeclares g hg⟩
  intro f f' xs xs' x x' hf hf' hxs hxs' hx hx' hname
  obtain ⟨y, hy, rfl⟩ := exists_type_of_reads ht hfiles hf hxs hx
  obtain ⟨y', hy', rfl⟩ := exists_type_of_reads ht hfiles hf' hxs' hx'
  -- a name belongs to one type of the table
  have hget := hsound.get?_name hy
  have hget' := hsound.get?_name hy'
  have hsame : y.name = y'.name := hname
  rw [hsame, hget', Option.some.injEq] at hget
  rw [hget]

/-- A document with three folders, whose operations ask for one name: two of them answer the
same, the third one something else. -/
def visitNotes : Document where
  family := .openapi3
  versionText := "3.0.0"
  info := ⟨some "Clinic", none, none⟩
  paths :=
    [("/patients/visits/notes/list", .map [(.str "get", answering note)]),
      ("/staff/visits/notes/list", .map [(.str "get", answering note)]),
      ("/rooms/visits/notes/list", .map [(.str "get", answering notes)])]
  definitions := [("note", note), ("Remark", toNote)]
  baseUrl := defaultBaseUrl
  root := .map []
where
  note : Value := .map [(.str "type", .str "object")]
  toNote : Value := .map [(.str "$ref", .str "#/components/schemas/note")]
  notes : Value := .map [(.str "type", .str "array"), (.str "items", toNote)]
  answering (schema : Value) : Value := .map [(.str "responses", .map [(.str "200", .map
    [(.str "content", .map [(.str "application/json", .map [(.str "schema", schema)])])])])]

theorem generate_declares_visitNotes :
    (visitNotes.definitions.map Prod.fst).Nodup ∧
      ∃ out, (visitNotes.generate 300 .default).outcome = .ok out ∧
        ∃ p t sources first, (parts visitNotes 300 .default).outcome = .ok p ∧
          (types p .default).outcome = .ok (t, sources) ∧
          sources = p.index.own.map (fun e => schemaSource e.1) ∧
          (p.groups.map fun g => (declared t sources g).map GeneratedType.name) =
            [["Note", "getVisitsNotesListResponse"], ["Note", "getVisitsNotesListResponse"],
              ["Note", "getVisitsNotesListResponse1"]] ∧
          List.Forall₂ (fun g f => f.folder = g.folder ∧
            Reads f ((declared t sources g).map GeneratedType.asRead) ∧ Declares t sources first g)
            p.groups out.folders := by
  have hdefinitions : (visitNotes.definitions.map Prod.fst).Nodup := by decide
  have hrun : (visitNotes.generate 300 .default).outcome.toOption.isSome := by decide +kernel
  have hnames : (do
      let p ← (parts visitNotes 300 .default).outcome.toOption
      let typed ← (types p .default).outcome.toOption
      return p.groups.map fun g => (declared typed.1 typed.2 g).map GeneratedType.name) =
    some [["Note", "getVisitsNotesListResponse"], ["Note", "getVisitsNotesListResponse"],
      ["Note", "getVisitsNotesListResponse1"]] := by decide +kernel
  obtain ⟨out, hok⟩ := Failure.exists_eq_ok hrun
  obtain ⟨p, t, sources, first, hp, ht, hsources, hfiles, -⟩ :=
    generate_declares_types hdefinitions hok
  rw [hp] at hnames
  refine ⟨hdefinitions, out, hok, p, t, sources, first, hp, ht, hsources, ?_, hfiles⟩
  have hnames' : ((types p .default).outcome.toOption.bind fun r =>
      some (p.groups.map fun g => (declared r.1 r.2 g).map GeneratedType.name)) = _ := hnames
  rw [ht] at hnames'
  exact Option.some.inj hnames'

end TypedClients.Generation
