import TypedClients.Proofs.Generation
import TypedClients.Proofs.Generation.TypesFiles
import TypedClients.Proofs.TypeText.Following
import TypedClients.Proofs.TypeText.Names
import TypedClients.Proofs.Types.ReferenceNames

/-!
# Which names a file of types uses

A name in a declared type is declared in the same file, or is one that is always written, or
it is the name of a reference for which there is no type. Such a reference is reported where
it is followed. Where references are not followed, in definitions and inside properties, it is
not, although it names nothing.

* `mem_log_generate`: what is reported while the types of an operation are written is reported.
* `generate_accounts_for_names`: where every name in every file of types comes from.
* `generate_dangles_silently`: a document with a name that is neither declared nor reported.
-/

namespace TypedClients

/-! ## Notices about the types of operations -/

namespace Endpoints

variable {index : SchemaIndex} {style : NameStyle}

theorem mem_log_addRequest {t : TypeTable} {o : Operation} {s : Schema} {n : Notice}
    (hs : o.requestBody = some s) (hn : n ∈ (s.renderOperation index t.referenceNames).log) :
    n ∈ (addRequest t index style o).log := by
  rw [addRequest, hs]
  exact (Checked.prefix_log_bind _ _).subset hn

theorem mem_log_addResponse {t : TypeTable} {o : Operation} {n : Notice}
    (hn : n ∈ (responseBody o index t.referenceNames).log) :
    n ∈ (addResponse t index style o).log :=
  (Checked.prefix_log_bind _ _).subset hn

/-- The notices about the types of an operation are among those about all. -/
theorem mem_log_addEndpoints {t r : TypeTable} {os : List Operation}
    (h : (t.addEndpoints index style os).outcome = .ok r) {o : Operation} (ho : o ∈ os)
    {b : String × Checked String} (hb : b ∈ bodies index t.referenceNames o) {n : Notice}
    (hn : n ∈ b.2.log) : n ∈ (t.addEndpoints index style os).log := by
  induction os generalizing t with
  | nil => exact absurd ho List.not_mem_nil
  | cons o' rest ih =>
    rw [TypeTable.addEndpoints] at h ⊢
    obtain ⟨t', hrequest, h⟩ := Checked.outcome_bind_eq_ok.1 h
    obtain ⟨t'', hresponse, h⟩ := Checked.outcome_bind_eq_ok.1 h
    obtain ⟨rs, ht', -⟩ := registeredBy_addRequest hrequest
    obtain ⟨r', ht'', -⟩ := registeredBy_addResponse hresponse
    have hnames' : t'.referenceNames = t.referenceNames := by
      rw [ht', TypeTable.referenceNames_addAll]
    have hnames'' : t''.referenceNames = t.referenceNames := by
      rw [ht'', TypeTable.referenceNames_addAll, hnames']
    rw [Checked.log_bind hrequest, Checked.log_bind hresponse, List.mem_append, List.mem_append]
    rcases List.mem_cons.1 ho with rfl | ho
    · rw [bodies, List.mem_append, List.mem_singleton] at hb
      rcases hb with hb | rfl
      · obtain ⟨s, hs, rfl⟩ := List.mem_map.1 hb
        exact Or.inl (mem_log_addRequest (Option.mem_toList.1 hs) hn)
      · exact Or.inr (Or.inl (mem_log_addResponse (hnames' ▸ hn)))
    · exact Or.inr (Or.inr (ih h ho (hnames'' ▸ hb)))

/-- The schema that the type of an operation's request or answer is written from, if there is
one. -/
def schemas (o : Operation) : List Schema := o.requestBody.toList ++ (successSchema? o).toList

variable {names : Ordered String}

/-- The names in the type of a request or an answer. -/
theorem read_bodies (hnames : ∀ n x, names.get? n = some x → Naming.isIdentifier x.toList = true)
    {o : Operation} {b : String × Checked String} (hb : b ∈ bodies index names o) {text : String}
    (htext : b.2.outcome = .ok text) :
    ∃ τ, TypeText.read text = some τ ∧ ∀ n, n ∈ τ.names → n ∈ Schema.builtinNames ∨
      n ∈ TypeText.constantNames ∨ ∃ ref, n = Schema.referenceName names ref ∧
        Schema.Kept index names ((schemas o).flatMap Schema.inner) b.2.log ref := by
  have hany : ∃ τ, TypeText.read TypeText.any = some τ ∧ ∀ n, n ∈ τ.names →
    n ∈ Schema.builtinNames := by
    refine ⟨.atom TypeText.any, by rfl, fun n hn => ?_⟩
    rw [(TypeTree.mem_names_atom.1 hn).1]
    decide
  have hschema : ∀ {s : Schema} {step : Checked String}, s ∈ schemas o →
      step = s.renderOperation index names → ∀ {text}, step.outcome = .ok text →
      ∃ τ, TypeText.read text = some τ ∧ ∀ n, n ∈ τ.names → n ∈ Schema.builtinNames ∨
        n ∈ TypeText.constantNames ∨ ∃ ref, n = Schema.referenceName names ref ∧
          Schema.Kept index names ((schemas o).flatMap Schema.inner) step.log ref := by
    rintro s _ hs rfl text htext
    obtain ⟨s', hfollows⟩ : ∃ s' : Schema, Schema.Follows index names s.inner
        (s.renderOperation index names) (s'.render names) s'.references :=
      Schema.follows_renderFollowing [] s
    have hrender : s'.render names = .ok text := hfollows.text.symm.trans htext
    obtain ⟨τ, hτ, hwritten⟩ := Schema.read_names hnames hrender
    refine ⟨τ, hτ, fun n hn => (hwritten n hn).imp_right (Or.imp_right ?_)⟩
    rintro ⟨ref, href, rfl⟩
    refine ⟨ref, rfl, (hfollows.kept text hrender ref href).mono (fun r hr => ?_) fun _ h => h⟩
    exact List.mem_flatMap.2 ⟨s, hs, hr⟩
  rw [bodies, List.mem_append, List.mem_singleton] at hb
  rcases hb with hb | rfl
  · obtain ⟨s, hs, rfl⟩ := List.mem_map.1 hb
    exact hschema (List.mem_append_left _ hs) rfl htext
  · have hresponse : (responseBody o index names).outcome = .ok text := htext
    unfold responseBody at hresponse ⊢
    split at hresponse
    next =>
      cases hresponse
      obtain ⟨τ, hτ, hn⟩ := hany
      exact ⟨τ, hτ, fun n h => Or.inl (hn n h)⟩
    next s hs =>
      have hmem : s ∈ schemas o := List.mem_append_right _ (Option.mem_toList.2 hs)
      obtain ⟨body, hbody, hresponse⟩ := Checked.outcome_bind_eq_ok.1 hresponse
      rw [Checked.log_bind hbody]
      split at hresponse
      · cases hresponse
        obtain ⟨τ, hτ, hn⟩ := hany
        exact ⟨τ, hτ, fun n h => Or.inl (hn n h)⟩
      · cases hresponse
        obtain ⟨τ, hτ, hn⟩ := hschema hmem rfl hbody
        refine ⟨τ, hτ, fun n h => (hn n h).imp_right (Or.imp_right ?_)⟩
        rintro ⟨ref, href, hkept⟩
        exact ⟨ref, href, hkept.mono (fun _ h => h) fun _ => List.mem_append_left _⟩

end Endpoints

namespace Generation

open Endpoints (bodies)

variable {d : Document} {limit : Nat} {options : Options} {t : TypeTable} {sources : List String}

theorem mem_log_addGroups {index : SchemaIndex} {style : Endpoints.NameStyle} {t r : TypeTable}
    {gs : List Group} (h : (addGroups t index style gs).outcome = .ok r) {g : Group} (hg : g ∈ gs)
    {o : Operation} (ho : o ∈ g.operations) {b : String × Checked String}
    (hb : b ∈ bodies index t.referenceNames o) {n : Notice} (hn : n ∈ b.2.log) :
    n ∈ (addGroups t index style gs).log := by
  induction gs generalizing t with
  | nil => exact absurd hg List.not_mem_nil
  | cons g' rest ih =>
    rw [addGroups] at h ⊢
    obtain ⟨t', hfirst, h⟩ := Checked.outcome_bind_eq_ok.1 h
    rw [Checked.log_bind hfirst, List.mem_append]
    rcases List.mem_cons.1 hg with rfl | hg
    · exact Or.inl (Endpoints.mem_log_addEndpoints hfirst ho hb hn)
    · refine Or.inr (ih h hg ?_)
      rw [Endpoints.referenceNames_of_addEndpoints hfirst]
      exact hb

/-- What is reported while the types of an operation are written is reported by the whole
generation. -/
theorem mem_log_generate {p : Parts} (hp : (parts d limit options).outcome = .ok p)
    (ht : (types p options).outcome = .ok (t, sources)) {g : Group} (hg : g ∈ p.groups)
    {o : Operation} (ho : o ∈ g.operations) {b : String × Checked String}
    (hb : b ∈ bodies p.index t.referenceNames o) {n : Notice} (hn : n ∈ b.2.log) :
    n ∈ (d.generate limit options).log := by
  have htypes : n ∈ (types p options).log := by
    rw [types] at ht ⊢
    obtain ⟨⟨t₀, tags⟩, hdefinitions, ht⟩ := Checked.outcome_bind_eq_ok.1 ht
    obtain ⟨t₁, hgroups, ht⟩ := Checked.outcome_bind_eq_ok.1 ht
    cases ht
    have hnames := Endpoints.referenceNames_of_addEndpoints (outcome_addGroups_eq_ok.1 hgroups)
    rw [Checked.log_bind hdefinitions]
    refine List.mem_append_right _ ((Checked.prefix_log_bind _ _).subset ?_)
    exact mem_log_addGroups hgroups hg ho (hnames ▸ hb) hn
  rw [Document.generate, Checked.log_reporting, Checked.log_bind hp]
  exact List.mem_append_right _ ((Checked.prefix_log_bind _ _).subset htypes)

/-! ## Names in a file of types -/

/-- The references that stand in the schemas of a group's operations where none are followed. -/
def inner (g : Group) : List String :=
  g.operations.flatMap fun o => (Endpoints.schemas o).flatMap Schema.inner

/-- A name in the types of a group is accounted for: it is declared among them; or it is one
that is written whatever a document says; or it is the name of a reference that the table of
names has no name for, and this reference is reported, leads somewhere after all, or stands
where none are followed. -/
def Accounted (p : Parts) (t : TypeTable) (sources : List String) (log : List Notice) (g : Group)
    (n : String) : Prop :=
  n ∈ (declared t sources g).map GeneratedType.name ∨ n ∈ Schema.builtinNames ∨
    n ∈ TypeText.constantNames ∨ ∃ ref, n = Naming.typeName (Schema.refName ref) ∧
      t.referenceNames.get? (Schema.refName ref) = none ∧
      Schema.Kept p.index t.referenceNames (inner g) log ref

section Names

variable {p : Parts} {t₀ : TypeTable} {drafts : Ordered String} {g : Group} {log : List Notice}
  (hindex : p.index.Proper)
  (hdrafts : (Definitions.draftNames .empty [] p.index.own).outcome = .ok drafts)
  (hreg : (Definitions.registerAll { TypeTable.empty with
    referenceNames := (Definitions.withAliases p.index drafts p.index.entries).value }
      p.index.own).outcome = .ok t₀)
  (hnames : t.referenceNames = t₀.referenceNames) (hfirst : t₀.types ⊆ declared t sources g)
include hindex hdrafts hreg hnames hfirst

/-- The name of a kept reference is accounted for, at whatever time it is written. -/
theorem accounted_referenceName {done : List String} {names : Ordered String} {ref : String}
    (hnamed : Definitions.NamedSoFar p.index drafts t₀ done names)
    (hkept : Schema.Kept p.index t.referenceNames (inner g) log ref) :
    Accounted p t sources log g (Schema.referenceName names ref) := by
  have hfinal := Definitions.namedSoFar_own hindex hreg
  rw [← hnames] at hfinal
  rcases Definitions.referenceName_cases hindex hdrafts hreg hnamed ref with htype | ⟨hname, hnone⟩
  · obtain ⟨x, hx, hxname⟩ := List.mem_map.1 htype
    exact Or.inl (List.mem_map.2 ⟨x, hfirst hx, hxname⟩)
  · refine Or.inr (Or.inr (Or.inr ⟨ref, hname, ?_, hkept⟩))
    exact (Definitions.get?_eq_none_iff hindex hdrafts hreg hfinal _).2 hnone

/-- The names in the type of a definition are accounted for. -/
theorem accounts_for_definition {e : String} {s : Schema} (he : (e, s) ∈ p.index.own) :
    ∃ x, t₀.nameFor (schemaSource e) = some x.name ∧ t₀.get? x.name = some x ∧
      ∃ τ, TypeText.read x.body = some τ ∧ ∀ n, n ∈ τ.names → Accounted p t sources log g n := by
  obtain ⟨before, after, hown⟩ := List.append_of_mem he
  obtain ⟨names, x, hbody, hget, htag, hthen⟩ := Definitions.registered_own hindex hreg hown
  have hnamed : Definitions.NamedSoFar p.index drafts t₀ (before.map Prod.fst) names :=
    ⟨fun n hn => Definitions.mem_own_of_mem_before hown hn, hthen⟩
  obtain ⟨τ, hτ, hwritten⟩ :=
    Schema.read_names (Definitions.isIdentifier_of_get? hindex hdrafts hreg hnamed) hbody
  refine ⟨x, htag, hget, τ, hτ, fun n hn => ?_⟩
  rcases hwritten n hn with hn | hn | ⟨ref, href, rfl⟩
  · exact Or.inr (Or.inl hn)
  · exact Or.inr (Or.inr (Or.inl hn))
  · refine accounted_referenceName hindex hdrafts hreg hnames hfirst hnamed ?_
    exact Or.inr (Or.inr (Or.inr ⟨(e, s), (SchemaIndex.mem_own.1 he).1, href⟩))

/-- The names in the type of a request or an answer are accounted for. -/
theorem accounts_for_operation {o : Operation} (ho : o ∈ g.operations) {b : String × Checked String}
    (hb : b ∈ bodies p.index t.referenceNames o) (hlog : ∀ n, n ∈ b.2.log → n ∈ log)
    {text : String} (htext : b.2.outcome = .ok text) :
    ∃ τ, TypeText.read text = some τ ∧ ∀ n, n ∈ τ.names → Accounted p t sources log g n := by
  have hfinal := Definitions.namedSoFar_own hindex hreg
  rw [← hnames] at hfinal
  obtain ⟨τ, hτ, hwritten⟩ :=
    Endpoints.read_bodies (Definitions.isIdentifier_of_get? hindex hdrafts hreg hfinal) hb htext
  refine ⟨τ, hτ, fun n hn => ?_⟩
  rcases hwritten n hn with hn | hn | ⟨ref, rfl, hkept⟩
  · exact Or.inr (Or.inl hn)
  · exact Or.inr (Or.inr (Or.inl hn))
  · refine accounted_referenceName hindex hdrafts hreg hnames hfirst hfinal (hkept.mono ?_ hlog)
    exact fun r hr => List.mem_flatMap.2 ⟨o, ho, hr⟩

end Names

/-- Each name in each declared type is accounted for. -/
theorem accounts_for_names {p : Parts} (hpaths : (d.paths.map Prod.fst).Nodup)
    (hindex : p.index.Proper) (hp : (parts d limit options).outcome = .ok p)
    (ht : (types p options).outcome = .ok (t, sources)) {g : Group} (hg : g ∈ p.groups)
    {x : GeneratedType} (hx : x ∈ declared t sources g) :
    ∃ τ, TypeText.read x.body = some τ ∧
      ∀ n, n ∈ τ.names → Accounted p t sources (d.generate limit options).log g n := by
  obtain ⟨t₀, hdefinitions, hrun⟩ := outcome_types_eq_ok.1 ht
  obtain ⟨hsound, htyped⟩ := typed_of_types hpaths hp ht
  obtain ⟨-, hsources, hdeclares⟩ := declares_of_types hindex hdefinitions hrun
  obtain ⟨drafts, hdrafts, hreg, -⟩ := Definitions.outcome_addDefinitions.1 hdefinitions
  obtain ⟨hstart, hkept, -⟩ := Endpoints.kept_of_addEndpoints hrun
  have hnames := Endpoints.referenceNames_of_addEndpoints hrun
  have hfirst : t₀.types ⊆ declared t sources g := by
    obtain ⟨own, hsplit, -⟩ := (hdeclares g hg).split
    rw [hsplit]
    exact List.subset_append_left _ _
  obtain ⟨hmem, tag, htag, hname⟩ := TypeTable.mem_select.1 hx
  have hget := hsound.get?_name hmem
  rcases List.mem_append.1 htag with htag | htag
  · rw [hsources] at htag
    obtain ⟨⟨e, s⟩, he, rfl⟩ := List.mem_map.1 htag
    obtain ⟨x', htag', hget', hread⟩ := accounts_for_definition hindex hdrafts hreg hnames hfirst he
    rw [hkept e, htag', Option.some.injEq] at hname
    rw [← hname, TypeTable.get?_of_prefix hstart hget', Option.some.injEq] at hget
    exact hget ▸ hread
  · obtain ⟨o, ho, htag⟩ := List.mem_flatMap.1 htag
    have hbodies : (bodies p.index t.referenceNames o).map Prod.fst = Endpoints.sourcesOf o :=
      Endpoints.map_fst_bodies t.referenceNames o
    rw [← hbodies] at htag
    obtain ⟨b, hb, rfl⟩ := List.mem_map.1 htag
    obtain ⟨x', hname', hget', hbody, -⟩ := htyped g o b hg ho hb
    rw [hname', Option.some.injEq] at hname
    rw [← hname, hget', Option.some.injEq] at hget
    refine hget ▸ accounts_for_operation hindex hdrafts hreg hnames hfirst ho hb ?_ hbody
    exact fun n hn => mem_log_generate hp ht hg ho hb hn

/-- Whatever a document generates, each type that is declared in a folder is read as a type
whose names are accounted for: a name that is not declared in the same file, nor written
whatever a document says, is that of a reference without a type. Unless the reference leads
somewhere it is reported, or it stands in a definition or where references of an operation are
not followed. -/
theorem generate_accounts_for_names {out : Output} (hpaths : (d.paths.map Prod.fst).Nodup)
    (hdefinitions : (d.definitions.map Prod.fst).Nodup)
    (h : (d.generate limit options).outcome = .ok out) :
    ∃ p t sources, (parts d limit options).outcome = .ok p ∧
      (types p options).outcome = .ok (t, sources) ∧
      List.Forall₂ (fun g f => f.folder = g.folder ∧
        Reads f ((declared t sources g).map GeneratedType.asRead) ∧
        ∀ x, x ∈ declared t sources g → ∃ τ, TypeText.read x.body = some τ ∧
          ∀ n, n ∈ τ.names → Accounted p t sources (d.generate limit options).log g n)
        p.groups out.folders := by
  obtain ⟨p, t, sources, folders, hp, ht, hfolders, rfl⟩ := outcome_generate_eq_ok.1 h
  have hindex : p.index.Proper := by
    obtain ⟨index, os, hindex, -, -, rfl⟩ := outcome_parts_eq_ok.1 hp
    exact SchemaIndex.proper_ofDocument hindex hdefinitions
  refine ⟨p, t, sources, hp, ht, ?_⟩
  have hfiles := declares_of_folderOutputs hfolders
  refine ((List.forall₂_and_left _ _).2 ⟨fun _ hg => hg, hfiles⟩).imp ?_
  rintro g f ⟨hg, hfolder, hfile⟩
  exact ⟨hfolder, reads_of_types ht hfile,
    fun x hx => accounts_for_names hpaths hindex hp ht hg hx⟩

/-- A document with one operation, and with a definition that refers to one that is not there. -/
def danglingProperty : Document where
  family := .swagger2
  versionText := "2.0"
  info := ⟨some "Clinic", none, none⟩
  paths := [("/visits", .map [(.str "get", .map [])])]
  definitions :=
    [("Visit", .map [(.str "properties", .map
      [(.str "room", .map [(.str "$ref", .str "#/definitions/Room")])])])]
  baseUrl := defaultBaseUrl
  root := .map []

theorem generate_accounts_for_danglingProperty :
    (danglingProperty.paths.map Prod.fst).Nodup ∧
    (danglingProperty.definitions.map Prod.fst).Nodup ∧
      ∃ out, (danglingProperty.generate 300 .default).outcome = .ok out ∧
        ∃ p t sources, (parts danglingProperty 300 .default).outcome = .ok p ∧
          (types p .default).outcome = .ok (t, sources) ∧
          List.Forall₂ (fun g f => f.folder = g.folder ∧
            Reads f ((declared t sources g).map GeneratedType.asRead) ∧
            ∀ x, x ∈ declared t sources g → ∃ τ, TypeText.read x.body = some τ ∧
              ∀ n, n ∈ τ.names →
                Accounted p t sources (danglingProperty.generate 300 .default).log g n)
            p.groups out.folders := by
  have hpaths : (danglingProperty.paths.map Prod.fst).Nodup := by decide
  have hdefinitions : (danglingProperty.definitions.map Prod.fst).Nodup := by decide
  have hrun : (danglingProperty.generate 300 .default).outcome.toOption.isSome := by decide +kernel
  obtain ⟨out, hok⟩ := Failure.exists_eq_ok hrun
  exact ⟨hpaths, hdefinitions, out, hok, generate_accounts_for_names hpaths hdefinitions hok⟩

/-- The types of its one group are declared in `types`, and the type of `Visit` has the name
`Room` in it, which is declared nowhere, is none that is always written, and is not reported.
-/
theorem generate_dangles_silently :
    ∃ out p t sources g x τ, (danglingProperty.generate 300 .default).outcome = .ok out ∧
      (parts danglingProperty 300 .default).outcome = .ok p ∧
      (types p .default).outcome = .ok (t, sources) ∧ p.groups = [g] ∧
      x ∈ declared t sources g ∧ x.name = "Visit" ∧ x.body = "{ room?: Room }" ∧
      TypeText.read x.body = some τ ∧ "Room" ∈ τ.names ∧
      "Room" ∉ (declared t sources g).map GeneratedType.name ∧ "Room" ∉ Schema.builtinNames ∧
      ∀ n, n ∈ (danglingProperty.generate 300 .default).log → n.level ≠ .warning := by
  have hrun : (danglingProperty.generate 300 .default).outcome.toOption.isSome := by decide +kernel
  have htypes : ((parts danglingProperty 300 .default).outcome.toOption.bind fun p =>
      (types p .default).outcome.toOption.bind fun r =>
        p.groups.head?.map fun g => (p.groups.length, declared r.1 r.2 g)) =
      some (1, [⟨"Visit", "{ room?: Room }", "schema:Visit"⟩,
        ⟨"getVisitsResponse", "any", "endpoint:GET:/visits:response"⟩]) := by decide +kernel
  have hread : (TypeText.read "{ room?: Room }").any (fun τ => τ.names = ["Room"]) = true := by
    decide +kernel
  have hlog : (danglingProperty.generate 300 .default).log.all (·.level ≠ .warning) = true := by
    decide +kernel
  obtain ⟨out, hout⟩ := Failure.exists_eq_ok hrun
  obtain ⟨p, hp, htypes⟩ := Option.bind_eq_some_iff.1 htypes
  obtain ⟨⟨t, sources⟩, ht, htypes⟩ := Option.bind_eq_some_iff.1 htypes
  obtain ⟨g, hg, hdeclared⟩ := Option.map_eq_some_iff.1 htypes
  obtain ⟨hone, htypes⟩ := Prod.mk.inj hdeclared
  obtain ⟨τ, hτ, hnames⟩ := (Option.any_eq_true _ _).1 hread
  refine ⟨out, p, t, sources, g, ⟨"Visit", "{ room?: Room }", "schema:Visit"⟩, τ,
    hout, Failure.eq_ok_of_toOption hp, Failure.eq_ok_of_toOption ht,
    ?_, ?_, rfl, rfl, hτ, ?_, ?_, by decide, fun n hn => ?_⟩
  · obtain ⟨g', hgroups⟩ := List.length_eq_one_iff.1 hone
    rw [hgroups] at hg ⊢
    rw [Option.some.inj hg]
  · rw [htypes]
    exact List.mem_cons_self
  · rw [of_decide_eq_true hnames]
    exact List.mem_singleton.2 rfl
  · rw [htypes]
    decide
  · exact of_decide_eq_true (List.all_eq_true.1 hlog n hn)

end Generation

end TypedClients
