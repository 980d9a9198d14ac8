import TypedClients.Proofs.Types.EndpointTypes
import TypedClients.Proofs.Types.FinalNames

/-!
# Which types are declared together

The types of the definitions come into the table first, and no other types before them: each
of them is the final type of some definition (`origin_of_addDefinitions`). The types of
operations come behind, and their tags leave those of definitions alone
(`kept_of_addEndpoints`). So whatever is selected for a group begins with the types of all
definitions, and none of the types behind them belongs to a definition (`select_split`).
-/

namespace TypedClients

/-- A tag of a definition is none of an operation. -/
theorem schemaSource_not_mem_sourcesOf (definition : String) (o : Operation) :
    schemaSource definition ∉ Endpoints.sourcesOf o := by
  -- the two begin differently
  have hfirst : ∀ s : String, ("endpoint:" ++ s).toList.head? = some 'e' := by
    intro s
    rw [String.toList_append]
    rfl
  have hschema : (schemaSource definition).toList.head? = some 's' := by
    rw [schemaSource, String.toList_append]
    rfl
  intro h
  rcases Endpoints.mem_sourcesOf h with h | h
  · rw [h, requestSource, String.append_assoc, hfirst] at hschema
    exact absurd hschema (by decide)
  · rw [h, responseSource, String.append_assoc, hfirst] at hschema
    exact absurd hschema (by decide)

namespace Definitions

variable {index : SchemaIndex}

/-- A type that is in the table after definitions are registered was there before or is the
final type of one of them. -/
theorem origin_of_registerAll {t r : TypeTable} {defs : List (String × Schema)}
    (hnodup : (defs.map Prod.fst).Nodup) (h : (registerAll t defs).outcome = .ok r)
    {g : GeneratedType} (hg : g ∈ r.types) :
    g ∈ t.types ∨ ∃ n, n ∈ defs.map Prod.fst ∧ r.nameFor (schemaSource n) = some g.name := by
  induction defs generalizing t with
  | nil =>
    rw [registerAll, Checked.outcome_pure, Except.ok.injEq] at h
    exact Or.inl (h ▸ hg)
  | cons e rest ih =>
    obtain ⟨name, s⟩ := e
    obtain ⟨body, -, hrest⟩ := outcome_registerAll_cons.1 h
    rw [List.map_cons, List.nodup_cons] at hnodup
    rw [List.map_cons]
    rcases ih hnodup.2 hrest with hstep | ⟨n, hn, htag⟩
    · let wanted := (t.referenceNames.get? name).getD (Naming.typeName name)
      rcases (TypeTable.registers_add t ⟨wanted, body, schemaSource name⟩).types with hsame | hnew
      · exact Or.inl (hsame ▸ hstep)
      · have hstep' : g ∈ t.types ++ [⟨t.settledName wanted body, body, schemaSource name⟩] :=
          hnew ▸ hstep
        rcases List.mem_append.1 hstep' with hold | hlast
        · exact Or.inl hold
        -- the new type has the tag of the definition, which no later definition takes
        · refine Or.inr ⟨name, List.mem_cons_self, ?_⟩
          have hmine : ∀ n, n ∈ rest.map Prod.fst → schemaSource name ≠ schemaSource n :=
            fun n hn he => hnodup.1 (schemaSource_injective he ▸ hn)
          rw [(kept_of_registerAll hrest).2 _ hmine, nameFor_withDefinition, if_pos rfl,
            withDefinition, Ordered.get?_put, if_pos rfl, List.mem_singleton.1 hlast]
    · exact Or.inr ⟨n, List.mem_cons_of_mem _ hn, htag⟩

/-- Once the definitions are registered, their tags and the types in the table belong
together: each tag leads to a type, and each type has a tag. -/
theorem origin_of_addDefinitions {t : TypeTable} {tags : List String} (hp : index.Proper)
    (h : (TypeTable.empty.addDefinitions index).outcome = .ok (t, tags)) :
    (∀ tag, tag ∈ tags → (t.nameFor tag).isSome) ∧
      ∀ g, g ∈ t.types → ∃ tag, tag ∈ tags ∧ t.nameFor tag = some g.name := by
  obtain ⟨drafts, -, hreg, rfl⟩ := outcome_addDefinitions.1 h
  refine ⟨fun tag htag => ?_, fun g hg => ?_⟩
  · obtain ⟨⟨n, s⟩, hn, rfl⟩ := List.mem_map.1 htag
    exact nameFor_isSome_of_own hp hreg (List.mem_map_of_mem hn)
  · rcases origin_of_registerAll (nodup_own hp) hreg hg with hnone | ⟨n, hn, htag⟩
    · exact absurd hnone List.not_mem_nil
    · obtain ⟨e, he, rfl⟩ := List.mem_map.1 hn
      exact ⟨schemaSource e.1, List.mem_map.2 ⟨e, he, rfl⟩, htag⟩

end Definitions

namespace Endpoints

open TypeTable (Registration)

variable {index : SchemaIndex} {style : NameStyle}

/-- Adding the types of operations keeps the types that are there in front and the names of
definitions, and gives each tag of an operation a name. -/
theorem kept_of_addEndpoints {t r : TypeTable} {os : List Operation}
    (h : (t.addEndpoints index style os).outcome = .ok r) :
    t.types <+: r.types ∧
      (∀ definition, r.nameFor (schemaSource definition) = t.nameFor (schemaSource definition)) ∧
      ∀ o tag, o ∈ os → tag ∈ sourcesOf o → (r.nameFor tag).isSome := by
  obtain ⟨rs, rfl, hrs⟩ := exists_registrations h
  have hsources := map_source_registrations hrs
  refine ⟨TypeTable.prefix_addAll t rs, fun definition => ?_, fun o tag ho htag => ?_⟩
  · have hname := TypeTable.nameFor_addAll t rs (schemaSource definition)
    have hnone : TypeTable.latest? rs (schemaSource definition) = none := by
      refine List.find?_eq_none.2 fun reg hreg he => ?_
      have hmem := List.mem_map_of_mem (f := Registration.source) (List.mem_reverse.1 hreg)
      rw [hsources, of_decide_eq_true he] at hmem
      obtain ⟨o, -, ho⟩ := List.mem_flatMap.1 hmem
      exact schemaSource_not_mem_sourcesOf definition o ho
    rw [hnone] at hname
    exact hname
  · have hmem : tag ∈ rs.map Registration.source := hsources ▸ List.mem_flatMap.2 ⟨o, ho, htag⟩
    obtain ⟨reg, hreg, rfl⟩ := List.mem_map.1 hmem
    have hname := TypeTable.nameFor_addAll t rs reg.source
    cases hlatest : TypeTable.latest? rs reg.source with
    | none =>
      rw [TypeTable.latest?, List.find?_eq_none] at hlatest
      exact absurd (hlatest reg (List.mem_reverse.2 hreg)) (by simp)
    | some last =>
      rw [hlatest] at hname
      obtain ⟨n, g, hn, -, -⟩ := hname
      rw [hn]
      rfl

end Endpoints

namespace TypeTable

theorem mem_select {t : TypeTable} {sources : List String} {g : GeneratedType} :
    g ∈ t.select sources ↔ g ∈ t.types ∧ ∃ tag, tag ∈ sources ∧ t.nameFor tag = some g.name := by
  rw [select, List.mem_filter, List.contains_iff_mem, List.mem_filterMap]

/-- The names that are selected are the final names of the tags. -/
theorem Sound.mem_map_name_select {t : TypeTable} (ht : t.Sound) {sources : List String}
    {name : String} : name ∈ (t.select sources).map GeneratedType.name ↔
      ∃ tag, tag ∈ sources ∧ t.nameFor tag = some name := by
  constructor
  · intro h
    obtain ⟨g, hg, rfl⟩ := List.mem_map.1 h
    exact (mem_select.1 hg).2
  · rintro ⟨tag, htag, hname⟩
    obtain ⟨g, hg⟩ := ht.tagged tag name hname
    obtain rfl := name_of_get? hg
    exact List.mem_map_of_mem (mem_select.2 ⟨mem_of_get? hg, tag, htag, hname⟩)

/-- A selection with the tags of all types of an earlier table, and some more, begins with
these types; none of the types behind has one of those tags. -/
theorem Sound.select_split {t₀ t : TypeTable} (ht₀ : t₀.Sound) (ht : t.Sound)
    (hstart : t₀.types <+: t.types) {sources : List String}
    (hnames : ∀ tag, tag ∈ sources → t.nameFor tag = t₀.nameFor tag)
    (horigin : ∀ g, g ∈ t₀.types → ∃ tag, tag ∈ sources ∧ t₀.nameFor tag = some g.name)
    (others : List String) :
    ∃ own, t.select (sources ++ others) = t₀.types ++ own ∧
      ∀ g tag, g ∈ own → tag ∈ sources → t.nameFor tag ≠ some g.name := by
  obtain ⟨rest, hrest⟩ := hstart
  refine ⟨rest.filter fun g => ((sources ++ others).filterMap t.nameFor).contains g.name, ?_, ?_⟩
  · rw [select, ← hrest, List.filter_append]
    refine congrArg (· ++ _) (List.filter_eq_self.2 fun g hg => ?_)
    obtain ⟨tag, htag, hname⟩ := horigin g hg
    rw [List.contains_iff_mem, List.mem_filterMap]
    exact ⟨tag, List.mem_append_left _ htag, (hnames tag htag).trans hname⟩
  · intro g tag hg htag hname
    rw [hnames tag htag] at hname
    -- the name would be that of a type in front, too
    obtain ⟨g', hg'⟩ := ht₀.tagged tag _ hname
    have hnodup := ht.nodup
    rw [← hrest, List.map_append, List.nodup_append] at hnodup
    exact hnodup.2.2 g'.name (List.mem_map_of_mem (mem_of_get? hg')) g.name
      (List.mem_map_of_mem (List.mem_filter.1 hg).1) (name_of_get? hg')

end TypeTable

end TypedClients
