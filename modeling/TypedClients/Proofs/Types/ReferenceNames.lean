import TypedClients.Proofs.Naming.Identifiers
import TypedClients.Proofs.Types.FinalNames

/-!
# References have the names of types

Every name that the table of names gives to a reference is the name of a type in the table of
types: a draft is taken by the definition that asked for it or was taken before, and aliases
only repeat the names of definitions. So a reference is written as the name of no type only if
the table has no name for it.

* `mem_types_of_get?`: whatever is named is named after a type.
* `get?_eq_none_iff`: what has no name has none from the first round on.
* `referenceName_cases`: a reference is written as the name of a type, or there is no name for it.
-/

namespace TypedClients

namespace TypeTable

/-- Whatever body asks for a name that the transport does not use, some type has this name
afterwards. -/
theorem get?_wanted_add (t : TypeTable) {name : String} (body source : String)
    (h : name ∉ transportNames) : ∃ g, (t.add name body source).get? name = some g := by
  by_cases hhold : t.CanHold body name
  · obtain ⟨g, hg, -⟩ := get?_settledName_add t name body source
    rw [settledName_eq_self hhold] at hg
    exact ⟨g, hg⟩
  -- another body has the name already
  · have hsome : t.get? name ≠ none := fun hnone => hhold ⟨h, Or.inl hnone⟩
    obtain ⟨g, hg⟩ := Option.ne_none_iff_exists'.1 hsome
    exact ⟨g, get?_of_prefix (prefix_add t name body source) hg⟩

end TypeTable

namespace Definitions

open Schema (referenceName)

variable {index : SchemaIndex} {drafts names : Ordered String}

/-! ## Where names come from -/

/-- An alias is named after a draft. -/
theorem get?_of_withAliases {entries : List (String × Schema)} {n x : String}
    (h : (withAliases index drafts entries).value.get? n = some x) :
    ∃ m, drafts.get? m = some x := by
  obtain ⟨as, hr⟩ := (settled_withAliases settled_drafts entries).1.reached n x h
  exact hr.exists_draft

/-- The names of the first round are identifiers. -/
theorem isIdentifier_draftNames {draft : TypeTable} {defs : List (String × Schema)}
    (h : (draftNames draft names defs).outcome = .ok drafts)
    (hnames : ∀ n x, names.get? n = some x → Naming.isIdentifier x.toList = true) {n x : String}
    (hx : drafts.get? n = some x) : Naming.isIdentifier x.toList = true := by
  induction defs generalizing draft names with
  | nil =>
    rw [draftNames, Checked.outcome_pure, Except.ok.injEq] at h
    exact hnames n x (h ▸ hx)
  | cons e rest ih =>
    obtain ⟨name, s⟩ := e
    obtain ⟨body, -, hrest⟩ := outcome_draftNames_cons.1 h
    refine ih hrest fun m y hy => ?_
    rw [Ordered.get?_put] at hy
    split at hy
    · obtain ⟨k, hk, -⟩ := TypeTable.isFirst_settledName draft (Naming.typeName name) body
      rw [← Option.some.inj hy, hk]
      exact Naming.isIdentifier_candidate (Naming.isIdentifier_identifier _) k
    · exact hnames m y hy

/-! ## Names and types -/

/-- After a round of registrations the names are the final ones for the definitions of the
round. -/
theorem referenceNames_of_registerAll {t r : TypeTable} {defs : List (String × Schema)}
    (h : (registerAll t defs).outcome = .ok r) (hnodup : (defs.map Prod.fst).Nodup) (n : String) :
    r.referenceNames.get? n =
      if n ∈ defs.map Prod.fst then r.nameFor (schemaSource n) else t.referenceNames.get? n := by
  induction defs generalizing t with
  | nil =>
    rw [registerAll, Checked.outcome_pure, Except.ok.injEq] at h
    rw [h]
    rfl
  | cons e rest ih =>
    obtain ⟨name, s⟩ := e
    obtain ⟨body, -, hrest⟩ := outcome_registerAll_cons.1 h
    rw [List.map_cons, List.nodup_cons] at hnodup
    rw [ih hrest hnodup.2, List.map_cons]
    by_cases hn : n ∈ rest.map Prod.fst
    · rw [if_pos hn, if_pos (List.mem_cons_of_mem _ hn)]
    · rw [if_neg hn]
      by_cases hname : n = name
      · subst hname
        have hmine : ∀ m, m ∈ rest.map Prod.fst → schemaSource n ≠ schemaSource m :=
          fun m hm he => hn (schemaSource_injective he ▸ hm)
        rw [if_pos List.mem_cons_self, (kept_of_registerAll hrest).2 _ hmine,
          nameFor_withDefinition, if_pos rfl]
      · have hmem : n ∉ name :: rest.map Prod.fst := by
          rw [List.mem_cons, not_or]
          exact ⟨hname, hn⟩
        rw [if_neg hmem, withDefinition, Ordered.get?_put, if_neg hname]

/-- The name that a definition asks for is a type's once the definition is registered. -/
theorem mem_types_of_registerAll {t r : TypeTable} {defs : List (String × Schema)}
    (h : (registerAll t defs).outcome = .ok r) (hnodup : (defs.map Prod.fst).Nodup) {n x : String}
    (hn : n ∈ defs.map Prod.fst) (hx : t.referenceNames.get? n = some x)
    (hfree : x ∉ transportNames) :
    x ∈ r.types.map GeneratedType.name := by
  induction defs generalizing t with
  | nil => exact absurd hn List.not_mem_nil
  | cons e rest ih =>
    obtain ⟨name, s⟩ := e
    obtain ⟨body, -, hrest⟩ := outcome_registerAll_cons.1 h
    rw [List.map_cons, List.nodup_cons] at hnodup
    by_cases hname : n = name
    · subst hname
      obtain ⟨g, hg⟩ := t.get?_wanted_add body (schemaSource n) hfree
      have hwanted : (t.referenceNames.get? n).getD (Naming.typeName n) = x := by
        rw [hx, Option.getD_some]
      have hstart := (kept_of_registerAll hrest).1
      rw [withDefinition, hwanted] at hstart
      have hlater := TypeTable.get?_of_prefix hstart hg
      exact List.mem_map.2 ⟨g, TypeTable.mem_of_get? hlater, TypeTable.name_of_get? hlater⟩
    · have hrestmem : n ∈ rest.map Prod.fst := (List.mem_cons.1 hn).resolve_left hname
      refine ih hrest hnodup.2 hrestmem ?_
      rw [withDefinition, Ordered.get?_put, if_neg hname, hx]

/-- A table whose names are identifiers, for references as for types, and whose bodies have a
property. -/
structure Identified (P : String → Prop) (t : TypeTable) : Prop where
  references : ∀ n x, t.referenceNames.get? n = some x → Naming.isIdentifier x.toList = true
  names : ∀ g, g ∈ t.types → Naming.isIdentifier g.name.toList = true
  bodies : ∀ g, g ∈ t.types → P g.body

/-- What schemas are written as with identifiers as names has a property. -/
def Writes (P : String → Prop) : Prop :=
  ∀ (names : Ordered String) (s : Schema) (body : String),
    (∀ n x, names.get? n = some x → Naming.isIdentifier x.toList = true) →
      s.render names = .ok body → P body

theorem Identified.withDefinition {P : String → Prop} {t : TypeTable} (ht : Identified P t)
    (name : String) {body : String} (hbody : P body) :
    Identified P (withDefinition t name body) := by
  let wanted := (t.referenceNames.get? name).getD (Naming.typeName name)
  have hwanted : Naming.isIdentifier wanted.toList = true := by
    cases hx : t.referenceNames.get? name with
    | some x => simp only [wanted, hx, Option.getD_some, ht.references name x hx]
    | none =>
      simp only [wanted, hx, Option.getD_none, Naming.typeName, Naming.isIdentifier_identifier]
  have hfinal : Naming.isIdentifier (t.settledName wanted body).toList = true := by
    obtain ⟨k, hk, -⟩ := TypeTable.isFirst_settledName t wanted body
    rw [hk]
    exact Naming.isIdentifier_candidate hwanted k
  have horigin : ∀ g, g ∈ (Definitions.withDefinition t name body).types → g ∈ t.types ∨
      g = ⟨t.settledName wanted body, body, schemaSource name⟩ := by
    intro g hg
    rcases (TypeTable.registers_add t ⟨wanted, body, schemaSource name⟩).types with hsame | hnew
    · exact Or.inl (hsame ▸ hg)
    · have hg' : g ∈ t.types ++ [⟨t.settledName wanted body, body, schemaSource name⟩] := hnew ▸ hg
      exact (List.mem_append.1 hg').imp_right List.mem_singleton.1
  refine ⟨fun n x hx => ?_, fun g hg => ?_, fun g hg => ?_⟩
  · rw [Definitions.withDefinition, Ordered.get?_put] at hx
    split at hx
    · exact Option.some.inj hx ▸ hfinal
    · exact ht.references n x hx
  · rcases horigin g hg with hold | rfl
    · exact ht.names g hold
    · exact hfinal
  · rcases horigin g hg with hold | rfl
    · exact ht.bodies g hold
    · exact hbody

theorem identified_of_registerAll {P : String → Prop} (hP : Writes P) {t r : TypeTable}
    {defs : List (String × Schema)} (h : (registerAll t defs).outcome = .ok r)
    (ht : Identified P t) : Identified P r := by
  induction defs generalizing t with
  | nil =>
    rw [registerAll, Checked.outcome_pure, Except.ok.injEq] at h
    exact h ▸ ht
  | cons e rest ih =>
    obtain ⟨name, s⟩ := e
    obtain ⟨body, hbody, hrest⟩ := outcome_registerAll_cons.1 h
    exact ih hrest (ht.withDefinition name (hP _ s body ht.references hbody))

/-! ## The tables of names of a document -/

/-- The table of names at some time in the second round: the definitions that are done have
their final names, all others and the aliases their drafts. -/
def NamedSoFar (index : SchemaIndex) (drafts : Ordered String) (t : TypeTable) (done : List String)
    (names : Ordered String) : Prop :=
  (∀ n, n ∈ done → n ∈ index.own.map Prod.fst) ∧
    ∀ n, names.get? n = if n ∈ done then t.nameFor (schemaSource n)
      else (withAliases index drafts index.entries).value.get? n

section SecondRound

variable {t : TypeTable} {done : List String} (hp : index.Proper)
  (hdrafts : (draftNames .empty [] index.own).outcome = .ok drafts)
  (hreg : (registerAll { TypeTable.empty with
    referenceNames := (withAliases index drafts index.entries).value } index.own).outcome = .ok t)
  (hnamed : NamedSoFar index drafts t done names)
include hreg

include hdrafts in
/-- The table of a document begins with drafts, which are identifiers, and without types. -/
theorem identified_of_drafts {P : String → Prop} (hP : Writes P) : Identified P t := by
  refine identified_of_registerAll hP hreg ⟨fun n x hx => ?_, fun g hg => ?_, fun g hg => ?_⟩
  · obtain ⟨m, hm⟩ := get?_of_withAliases hx
    exact isIdentifier_draftNames hdrafts (fun n x hx => nomatch hx) hm
  · exact absurd hg List.not_mem_nil
  · exact absurd hg List.not_mem_nil

include hdrafts in
theorem isIdentifier_of_mem_types {g : GeneratedType} (hg : g ∈ t.types) :
    Naming.isIdentifier g.name.toList = true :=
  have hany : Writes fun _ => True := fun _ _ _ _ _ => trivial
  (identified_of_drafts hdrafts hreg hany).names g hg

include hp

/-- At the end of the round the names are those of the whole table. -/
theorem namedSoFar_own : NamedSoFar index drafts t (index.own.map Prod.fst) t.referenceNames :=
  ⟨fun _ hn => hn, fun n => referenceNames_of_registerAll hreg (nodup_own hp) n⟩

include hdrafts hnamed

/-- Whatever is named is named after a type. -/
theorem mem_types_of_get? {n x : String} (h : names.get? n = some x) :
    x ∈ t.types.map GeneratedType.name := by
  rw [hnamed.2 n] at h
  split at h
  · have hsound := sound_of_registerAll (TypeTable.sound_empty.withReferenceNames _) hreg
    obtain ⟨g, hg⟩ := hsound.tagged _ x h
    exact List.mem_map.2 ⟨g, TypeTable.mem_of_get? hg, TypeTable.name_of_get? hg⟩
  -- a name from the first round is the draft of a definition, which asks for it in the second one
  · obtain ⟨m, hm⟩ := get?_of_withAliases h
    obtain ⟨hother, hown⟩ := get?_draftNames hdrafts m
    by_cases hmem : m ∈ index.own.map Prod.fst
    · obtain ⟨y, hy, hfree⟩ := hown hmem
      obtain rfl : y = x := Option.some.inj (hy.symm.trans hm)
      have hkeep := (drafted_withAliases hp (drafted_of_draftNames hp hdrafts) index.entries).1
      exact mem_types_of_registerAll hreg (nodup_own hp) hmem (hkeep m y hm) hfree
    · rw [hother hmem] at hm
      cases hm

theorem isIdentifier_of_get? (n x : String) (h : names.get? n = some x) :
    Naming.isIdentifier x.toList = true := by
  obtain ⟨g, hg, rfl⟩ := List.mem_map.1 (mem_types_of_get? hp hdrafts hreg hnamed h)
  exact isIdentifier_of_mem_types hdrafts hreg hg

theorem get?_eq_none_iff (n : String) :
    names.get? n = none ↔ (withAliases index drafts index.entries).value.get? n = none := by
  rw [hnamed.2 n]
  split
  next hmem =>
    have hown := hnamed.1 n hmem
    obtain ⟨y, hy, -⟩ := (get?_draftNames hdrafts n).2 hown
    have hkeep := (drafted_withAliases hp (drafted_of_draftNames hp hdrafts) index.entries).1
    rw [hkeep n y hy]
    refine iff_of_false (fun h => ?_) (fun h => nomatch h)
    have hsome := nameFor_isSome_of_own hp hreg hown
    rw [h] at hsome
    cases hsome
  next => exact Iff.rfl

/-- A reference is written as the name of a type, or there is no name for it. -/
theorem referenceName_cases (ref : String) :
    referenceName names ref ∈ t.types.map GeneratedType.name ∨
      referenceName names ref = Naming.typeName (Schema.refName ref) ∧
        (withAliases index drafts index.entries).value.get? (Schema.refName ref) = none := by
  rw [referenceName]
  cases hget : names.get? (Schema.refName ref) with
  | some y => exact Or.inl (mem_types_of_get? hp hdrafts hreg hnamed hget)
  | none => exact Or.inr ⟨rfl, (get?_eq_none_iff hp hdrafts hreg hnamed _).1 hget⟩

end SecondRound

end Definitions

end TypedClients
