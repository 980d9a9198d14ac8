import TypedClients.Proofs.Generation.Parts
import TypedClients.Proofs.Operation.StrayFields

/-!
# Documents that can be written

Once the schemas of a document can all be written, nothing on the way to the files of its
clients fails: every type gets a body, every member its arguments, and every group its two
files.

* `exists_types`: all types are settled.
* `exists_folderOutputs`: all files are written.
-/

namespace TypedClients

open Schema (exists_outcome_bind exists_outcome_map)

variable {index : SchemaIndex} {o : Operation} {os : List Operation} {style : Endpoints.NameStyle}

/-! ## Types -/

namespace Definitions

theorem exists_draftNames (draft : TypeTable) (names : Ordered String)
    {defs : List (String × Schema)} (h : ∀ e, e ∈ defs → e.2.Printable) :
    ∃ drafts, (draftNames draft names defs).outcome = .ok drafts := by
  induction defs generalizing draft names with
  | nil => exact ⟨names, rfl⟩
  | cons e rest ih =>
    rw [draftNames]
    exact exists_outcome_bind (h e List.mem_cons_self).exists_rendered fun body =>
      exists_outcome_bind ⟨_, rfl⟩ fun _ => ih _ _ fun e' he => h e' (List.mem_cons_of_mem _ he)

theorem exists_registerAll (t : TypeTable) {defs : List (String × Schema)}
    (h : ∀ e, e ∈ defs → e.2.Printable) : ∃ r, (registerAll t defs).outcome = .ok r := by
  induction defs generalizing t with
  | nil => exact ⟨t, rfl⟩
  | cons e rest ih =>
    rw [registerAll]
    exact exists_outcome_bind (h e List.mem_cons_self).exists_rendered fun body =>
      exists_outcome_bind ⟨_, rfl⟩ fun _ => ih _ fun e' he => h e' (List.mem_cons_of_mem _ he)

/-- Every definition gets a type. -/
theorem exists_addDefinitions (h : ∀ e, e ∈ index.entries → e.2.Printable) :
    ∃ r, (TypeTable.empty.addDefinitions index).outcome = .ok r := by
  have hown : ∀ e, e ∈ index.own → e.2.Printable := fun e he => h e (List.mem_filter.1 he).1
  obtain ⟨drafts, hdrafts⟩ := exists_draftNames .empty [] hown
  obtain ⟨t, ht⟩ := exists_registerAll
    { TypeTable.empty with referenceNames := (withAliases index drafts index.entries).value } hown
  exact ⟨(t, _), outcome_addDefinitions.2 ⟨drafts, hdrafts, ht, rfl⟩⟩

end Definitions

namespace Endpoints

theorem exists_addRequest (hindex : ∀ e, e ∈ index.entries → e.2.Printable) (ho : o.Printable)
    (t : TypeTable) : ∃ r, (addRequest t index style o).outcome = .ok r := by
  rw [addRequest]
  cases hbody : o.requestBody with
  | none => exact ⟨t, rfl⟩
  | some s =>
    have hmem : s ∈ o.schemas := List.mem_append_left _ (Option.mem_toList.2 hbody)
    exact exists_outcome_bind ((ho.schemas s hmem).exists_renderOperation hindex) fun body =>
      exists_outcome_map ⟨_, rfl⟩ _

theorem exists_addResponse (hindex : ∀ e, e ∈ index.entries → e.2.Printable) (ho : o.Printable)
    (t : TypeTable) : ∃ r, (addResponse t index style o).outcome = .ok r := by
  have hanswer : ∃ body, (responseBody o index t.referenceNames).outcome = .ok body := by
    rw [responseBody]
    cases hs : successSchema? o with
    | none => exact ⟨_, rfl⟩
    | some s =>
      have hprintable := ho.schemas s (mem_schemas_of_successSchema? hs)
      exact exists_outcome_bind (hprintable.exists_renderOperation hindex) fun body => ⟨_, rfl⟩
  exact exists_outcome_bind hanswer fun body => exists_outcome_map ⟨_, rfl⟩ _

/-- Every operation gets its types. -/
theorem exists_addEndpoints (hindex : ∀ e, e ∈ index.entries → e.2.Printable)
    (hos : ∀ o, o ∈ os → o.Printable) (t : TypeTable) :
    ∃ r, (t.addEndpoints index style os).outcome = .ok r := by
  induction os generalizing t with
  | nil => exact ⟨t, rfl⟩
  | cons o rest ih =>
    have ho := hos o List.mem_cons_self
    rw [TypeTable.addEndpoints]
    exact exists_outcome_bind (exists_addRequest hindex ho t) fun t =>
      exists_outcome_bind (exists_addResponse hindex ho t) fun t =>
        ih (fun o' ho' => hos o' (List.mem_cons_of_mem _ ho')) t

end Endpoints

/-! ## Clients -/

namespace Client

theorem exists_pathArguments (ho : o.Printable) (names : Ordered String)
    (placeholders : List String) :
    ∃ arguments, pathArguments o names placeholders = .ok arguments := by
  induction placeholders with
  | nil => exact ⟨[], rfl⟩
  | cons p rest ih =>
    obtain ⟨others, hothers⟩ := ih
    rw [pathArguments, hothers]
    cases hp : declared? o p with
    | none => exact ⟨_, rfl⟩
    | some parameter =>
      have hmem : parameter ∈ o.pathParams := List.mem_reverse.1 (List.mem_of_find?_eq_some hp)
      have hschema := ho.parameters parameter
        (List.mem_append_left _ (List.mem_append_left _ hmem))
      obtain ⟨text, htext⟩ := hschema.exists_render
      dsimp only
      rw [htext]
      exact ⟨_, rfl⟩

theorem exists_queryMembers (names : Ordered String) {ps : List Parameter}
    (h : ∀ p, p ∈ ps → p.schema.Printable) : ∃ texts, queryMembers names ps = .ok texts := by
  induction ps with
  | nil => exact ⟨[], rfl⟩
  | cons p rest ih =>
    obtain ⟨text, htext⟩ := (h p List.mem_cons_self).exists_render
    obtain ⟨texts, htexts⟩ := ih fun q hq => h q (List.mem_cons_of_mem _ hq)
    rw [queryMembers, htext, htexts]
    exact ⟨_, rfl⟩

/-- Every operation gets a member. -/
theorem exists_member (ho : o.Printable) (name : String) (t : TypeTable) :
    ∃ m, member name o t = .ok m := by
  obtain ⟨path, hpath⟩ := exists_pathArguments ho t.referenceNames (Naming.placeholders o.path)
  have hquery : ∃ arguments, queryArguments o t.referenceNames = .ok arguments := by
    obtain ⟨texts, htexts⟩ := exists_queryMembers t.referenceNames fun p hp => ho.parameters p
      (List.mem_append_left _ (List.mem_append_right _ hp))
    rw [queryArguments, htexts]
    split
    · exact ⟨_, rfl⟩
    · exact ⟨_, rfl⟩
  obtain ⟨query, hquery⟩ := hquery
  rw [member, hpath, hquery]
  exact ⟨_, rfl⟩

theorem exists_members (t : TypeTable) {entries : List (String × Operation)}
    (h : ∀ e, e ∈ entries → e.2.Printable) : ∃ ms, members t entries = .ok ms := by
  induction entries with
  | nil => exact ⟨[], rfl⟩
  | cons e rest ih =>
    obtain ⟨m, hm⟩ := exists_member (h e List.mem_cons_self) e.1 t
    obtain ⟨ms, hms⟩ := ih fun e' he => h e' (List.mem_cons_of_mem _ he)
    rw [members, hm, hms]
    exact ⟨_, rfl⟩

theorem exists_client {g : Group} (h : ∀ o, o ∈ g.operations → o.Printable) (t : TypeTable)
    (style : Endpoints.NameStyle) : ∃ client, g.client t style = .ok client := by
  have hzip : ∀ e, e ∈ (distinctNames [] (g.operations.map (memberName style))).zip g.operations →
      e.2.Printable := fun e he => h e.2 (List.of_mem_zip he).2
  obtain ⟨ms, hms⟩ := exists_members t hzip
  rw [Group.client, hms]
  exact ⟨_, rfl⟩

end Client

/-! ## Files -/

namespace Generation

variable {d : Document} {limit : Nat} {options : Options} {p : Parts}

/-- The types of a document can all be settled. -/
theorem exists_types (hindex : ∀ e, e ∈ p.index.entries → e.2.Printable)
    (hgroups : ∀ g, g ∈ p.groups → ∀ o, o ∈ g.operations → o.Printable) :
    ∃ r, (types p options).outcome = .ok r := by
  have hos : ∀ o, o ∈ p.groups.flatMap Group.operations → o.Printable := by
    intro o ho
    obtain ⟨g, hg, ho⟩ := List.mem_flatMap.1 ho
    exact hgroups g hg o ho
  obtain ⟨⟨t, sources⟩, ht⟩ := Definitions.exists_addDefinitions hindex
  obtain ⟨t', ht'⟩ : ∃ r, (t.addEndpoints p.index options.nameStyle
      (p.groups.flatMap Group.operations)).outcome = .ok r :=
      Endpoints.exists_addEndpoints hindex hos t
  exact ⟨(t', sources), outcome_types_eq_ok.2 ⟨t, ht, ht'⟩⟩

/-- The files of its folders can all be written. -/
theorem exists_folderOutputs (t : TypeTable) (sources : List String) {gs : List Group}
    (hgroups : ∀ g, g ∈ gs → ∀ o, o ∈ g.operations → o.Printable) :
    ∃ folders, folderOutputs d options t sources gs = .ok folders := by
  induction gs with
  | nil => exact ⟨[], rfl⟩
  | cons g rest ih =>
    obtain ⟨client, hclient⟩ :=
      Client.exists_client (hgroups g List.mem_cons_self) t options.nameStyle
    obtain ⟨folders, hfolders⟩ := ih fun g' hg' => hgroups g' (List.mem_cons_of_mem _ hg')
    rw [folderOutputs, folderOutput, hclient, hfolders]
    exact ⟨_, rfl⟩

end Generation

end TypedClients
