import Mathlib.Data.List.Induction
import Mathlib.Data.List.Nodup
import TypedClients.Proofs.Naming.Candidates
import TypedClients.Types.Definitions

/-!
# What a history of registrations leaves in the table

The table only grows: a registration either finds its body under the settled name or puts one new
type at the end. So whatever was refused to a body stays refused, and what was given to it stays
there, however many registrations follow.

* `Sound` is what every registration keeps: names are pairwise distinct, none of them belongs to
  the transport, and every tag leads to a type.
* `registers_add` says all that one registration does.
* `settledName_of_holds`: asking again for what was given before gives the same name.
* `addAll_keeps_promises` collects what holds after any history.
-/

namespace TypedClients.TypeTable

open Naming (IsFirst candidate)

/-- A body that asks for a name, with the tag that says what it was made from. -/
structure Registration where
  name : String
  body : String
  source : String

/-- The table after registrations, one after the other. -/
def addAll (t : TypeTable) (rs : List Registration) : TypeTable :=
  rs.foldl (fun t r => t.add r.name r.body r.source) t

/-- A name may hold a body: the transport does not use it, and it is free or holds just this
body. -/
def CanHold (t : TypeTable) (body name : String) : Prop :=
  name ∉ transportNames ∧
    (t.get? name = none ∨ ∃ g, t.get? name = some g ∧ g.body = body)

/-- What is true of a table after any number of registrations. -/
structure Sound (t : TypeTable) : Prop where
  nodup : (t.types.map GeneratedType.name).Nodup
  allowed : ∀ g, g ∈ t.types → g.name ∉ transportNames
  tagged : ∀ source name, t.nameFor source = some name → ∃ g, t.get? name = some g

/-- What a registration makes of a table: its final name is the first one that can hold the body,
holds it afterwards, and is the name of the tag; other tags keep their names, and the types that
were there stay in place, with at most one new type after them. -/
structure Registers (t : TypeTable) (r : Registration) (final : String) (t' : TypeTable) :
    Prop where
  first : IsFirst (t.CanHold r.body) r.name final
  holds : ∃ g, t'.get? final = some g ∧ g.body = r.body
  tagged : t'.nameFor r.source = some final
  others : ∀ source, source ≠ r.source → t'.nameFor source = t.nameFor source
  types : t'.types = t.types ∨ t'.types = t.types ++ [⟨final, r.body, r.source⟩]

/-! ## Looking up a name -/

theorem name_of_get? {t : TypeTable} {name : String} {g : GeneratedType}
    (h : t.get? name = some g) : g.name = name := by
  simpa using List.find?_some h

theorem mem_of_get? {t : TypeTable} {name : String} {g : GeneratedType}
    (h : t.get? name = some g) : g ∈ t.types := List.mem_of_find?_eq_some h

theorem contains_eq_false_iff {t : TypeTable} {name : String} :
    t.contains name = false ↔ t.get? name = none := by
  rw [contains, Option.isSome_eq_false_iff, Option.isNone_iff_eq_none]

/-- A table that continues another one has its types under the same names. -/
theorem get?_of_prefix {t t' : TypeTable} (hp : t.types <+: t'.types) {name : String}
    {g : GeneratedType} (h : t.get? name = some g) : t'.get? name = some g := by
  obtain ⟨rest, hrest⟩ := hp
  rw [get?] at h ⊢
  rw [← hrest, List.find?_append, h]
  rfl

/-- In a sound table every type is found under its own name. -/
theorem Sound.get?_name {t : TypeTable} (ht : t.Sound) {g : GeneratedType} (hg : g ∈ t.types) :
    t.get? g.name = some g := by
  cases hf : t.get? g.name with
  | none =>
    rw [get?, List.find?_eq_none] at hf
    exact absurd (hf g hg) (by simp)
  | some g' =>
    have hname := name_of_get? hf
    rw [List.inj_on_of_nodup_map ht.nodup (mem_of_get? hf) hg hname]

/-- Soundness is about types and their tags, not about the names of definitions. -/
theorem Sound.withReferenceNames {t : TypeTable} (ht : t.Sound) (names : Ordered String) :
    { t with referenceNames := names }.Sound :=
  ⟨ht.nodup, ht.allowed, fun source name h => ht.tagged source name h⟩

/-- A type of a sound table is selected once if one of its tags is among those that are wanted. -/
theorem Sound.filter_select {t : TypeTable} (ht : t.Sound) {sources : List String} {tag : String}
    {g : GeneratedType} (htag : tag ∈ sources) (hname : t.nameFor tag = some g.name)
    (hg : t.get? g.name = some g) : (t.select sources).filter (·.name = g.name) = [g] := by
  have hwanted : (sources.filterMap t.nameFor).contains g.name = true := by
    rw [List.contains_iff_mem, List.mem_filterMap]
    exact ⟨tag, htag, hname⟩
  -- the type stands at one place, and no type before or behind it has its name
  obtain ⟨before, after, htypes⟩ := List.append_of_mem (mem_of_get? hg)
  have hnodup := ht.nodup
  rw [htypes, List.map_append, List.map_cons, List.nodup_append, List.nodup_cons] at hnodup
  obtain ⟨-, ⟨hafter, -⟩, hbefore⟩ := hnodup
  have hnone : ∀ l : List GeneratedType, g.name ∉ l.map GeneratedType.name →
      (l.filter fun g => (sources.filterMap t.nameFor).contains g.name).filter
        (·.name = g.name) = [] := by
    intro l hl
    refine List.filter_eq_nil_iff.2 fun g' hg' he => hl ?_
    rw [← of_decide_eq_true he]
    exact List.mem_map_of_mem (List.mem_filter.1 hg').1
  have hbefore' : g.name ∉ before.map GeneratedType.name :=
    fun hmem => hbefore g.name hmem g.name List.mem_cons_self rfl
  rw [select]
  simp only [htypes, List.filter_append, List.filter_cons, hwanted, hnone before hbefore',
    hnone after hafter, if_true, decide_true, List.nil_append]

/-! ## The settled name -/

theorem accepts_iff {t : TypeTable} {body name : String} :
    t.accepts body name = true ↔ t.CanHold body name := by
  unfold accepts CanHold
  cases t.get? name with
  | none => simp
  | some g => simp

/-- The settled name is the first one that can hold the body. -/
theorem isFirst_settledName (t : TypeTable) (name body : String) :
    IsFirst (t.CanHold body) name (t.settledName name body) := by
  have h : IsFirst (t.accepts body · = true) name (t.settledName name body) := by
    -- the search is long enough to reach a name that nobody has
    have hfree : ∀ c, c ∉ t.types.map GeneratedType.name ++ transportNames →
        t.accepts body c = true := by
      intro c hc
      rw [List.mem_append, not_or] at hc
      refine accepts_iff.2 ⟨hc.2, Or.inl ?_⟩
      rw [get?, List.find?_eq_none]
      intro g hg he
      exact hc.1 (List.mem_map.2 ⟨g, hg, by simpa using he⟩)
    exact Naming.isFirst_firstCandidate (by simp) hfree
  simpa only [accepts_iff] using h

theorem canHold_settledName (t : TypeTable) (name body : String) :
    t.CanHold body (t.settledName name body) := (isFirst_settledName t name body).accepted

/-- A name that can hold the body is settled at once. -/
theorem settledName_eq_self {t : TypeTable} {name body : String} (h : t.CanHold body name) :
    t.settledName name body = name :=
  (isFirst_settledName t name body).unique ⟨0, rfl, h, fun _ hm => absurd hm (Nat.not_lt_zero _)⟩

/-- What a table cannot hold under a name, no table that continues it can. -/
theorem CanHold.of_prefix {t t' : TypeTable} (hp : t.types <+: t'.types) {body name : String}
    (h : t'.CanHold body name) : t.CanHold body name := by
  refine ⟨h.1, ?_⟩
  cases hg : t.get? name with
  | none => exact Or.inl rfl
  | some g =>
    -- what is in the way now is still there in the later table
    have hg' := get?_of_prefix hp hg
    rcases h.2 with hnone | ⟨g', hsome, hbody⟩
    · rw [hg'] at hnone
      cases hnone
    · rw [hg'] at hsome
      cases hsome
      exact Or.inr ⟨g, rfl, hbody⟩

/-- A body that holds its settled name in a later table settles on that name again. -/
theorem settledName_of_holds {t t' : TypeTable} (hp : t.types <+: t'.types) {name body : String}
    {g : GeneratedType} (hg : t'.get? (t.settledName name body) = some g) (hb : g.body = body) :
    t'.settledName name body = t.settledName name body := by
  refine (isFirst_settledName t' name body).unique ?_
  refine (isFirst_settledName t name body).mono ?_ fun c => CanHold.of_prefix hp
  exact ⟨(canHold_settledName t name body).1, Or.inr ⟨g, hg, hb⟩⟩

/-! ## One registration -/

theorem types_add (t : TypeTable) (name body source : String) :
    (t.add name body source).types =
      if t.contains (t.settledName name body) then t.types
      else t.types ++ [⟨t.settledName name body, body, source⟩] := rfl

theorem nameFor_add (t : TypeTable) (name body source tag : String) :
    (t.add name body source).nameFor tag =
      if tag = source then some (t.settledName name body) else t.nameFor tag :=
  Ordered.get?_put t.finalNames source tag _

theorem prefix_add (t : TypeTable) (name body source : String) :
    t.types <+: (t.add name body source).types := by
  rw [types_add]
  split
  · exact List.prefix_refl _
  · exact List.prefix_append _ _

/-- The settled name holds the body once it is registered. -/
theorem get?_settledName_add (t : TypeTable) (name body source : String) :
    ∃ g, (t.add name body source).get? (t.settledName name body) = some g ∧ g.body = body := by
  rcases (canHold_settledName t name body).2 with hnone | ⟨g, hg, hb⟩
  · refine ⟨⟨t.settledName name body, body, source⟩, ?_, rfl⟩
    have hnew : t.contains (t.settledName name body) = false := contains_eq_false_iff.2 hnone
    rw [get?] at hnone
    rw [get?, types_add, hnew, if_neg Bool.false_ne_true, List.find?_append, hnone]
    simp
  · exact ⟨g, get?_of_prefix (prefix_add t name body source) hg, hb⟩

theorem registers_add (t : TypeTable) (r : Registration) :
    t.Registers r (t.settledName r.name r.body) (t.add r.name r.body r.source) where
  first := isFirst_settledName t r.name r.body
  holds := get?_settledName_add t r.name r.body r.source
  tagged := by rw [nameFor_add, if_pos rfl]
  others := fun source hne => by rw [nameFor_add, if_neg hne]
  types := by
    rw [types_add]
    split
    · exact Or.inl rfl
    · exact Or.inr rfl

/-- What a registration returns: the settled name and the table with the body under it. -/
theorem value_register (t : TypeTable) (name body source : String) :
    (t.register name body source).value = (t.settledName name body, t.add name body source) := by
  unfold register
  by_cases h : t.settledName name body ≠ name
  · rw [if_pos h]
    rfl
  · rw [if_neg h]
    rfl

/-- A registration keeps a table sound. -/
theorem Sound.add {t : TypeTable} (ht : t.Sound) (name body source : String) :
    (t.add name body source).Sound := by
  have hallowed := (canHold_settledName t name body).1
  refine ⟨?_, ?_, ?_⟩
  · rw [types_add]
    split
    · exact ht.nodup
    next hnew =>
      -- the new name is not among the old ones, since nothing is found under it
      rw [Bool.not_eq_true, contains_eq_false_iff, get?, List.find?_eq_none] at hnew
      rw [List.map_append, List.nodup_append]
      refine ⟨ht.nodup, by simp, ?_⟩
      intro n hn m hm e
      obtain ⟨g, hg, rfl⟩ := List.mem_map.1 hn
      rw [List.map_singleton, List.mem_singleton] at hm
      exact hnew g hg (by simp [e, hm])
  · intro g hg
    rw [types_add] at hg
    split at hg
    · exact ht.allowed g hg
    · rcases List.mem_append.1 hg with hg | hg
      · exact ht.allowed g hg
      · rw [List.mem_singleton.1 hg]
        exact hallowed
  · intro tag n hn
    rw [nameFor_add] at hn
    split at hn
    · obtain ⟨g, hg, -⟩ := get?_settledName_add t name body source
      exact ⟨g, (Option.some.inj hn) ▸ hg⟩
    · obtain ⟨g, hg⟩ := ht.tagged tag n hn
      exact ⟨g, get?_of_prefix (prefix_add t name body source) hg⟩

/-! ## Histories -/

theorem sound_empty : empty.Sound :=
  ⟨List.nodup_nil, fun _ hg => absurd hg List.not_mem_nil, fun _ _ h => nomatch h⟩

theorem addAll_append (t : TypeTable) (rs rs' : List Registration) :
    t.addAll (rs ++ rs') = (t.addAll rs).addAll rs' := List.foldl_append

theorem addAll_concat (t : TypeTable) (rs : List Registration) (r : Registration) :
    t.addAll (rs ++ [r]) = (t.addAll rs).add r.name r.body r.source := addAll_append t rs [r]

theorem Sound.addAll {t : TypeTable} (ht : t.Sound) (rs : List Registration) :
    (t.addAll rs).Sound := by
  induction rs generalizing t with
  | nil => exact ht
  | cons r rest ih => exact ih (ht.add r.name r.body r.source)

theorem prefix_addAll (t : TypeTable) (rs : List Registration) :
    t.types <+: (t.addAll rs).types := by
  induction rs generalizing t with
  | nil => exact List.prefix_refl _
  | cons r rest ih => exact (prefix_add t r.name r.body r.source).trans (ih _)

/-- Registrations leave the names of definitions alone. -/
theorem referenceNames_addAll (t : TypeTable) (rs : List Registration) :
    (t.addAll rs).referenceNames = t.referenceNames := by
  induction rs generalizing t with
  | nil => rfl
  | cons r rest ih => exact ih (t.add r.name r.body r.source)

/-- The last registration with a tag. -/
def latest? (rs : List Registration) (source : String) : Option Registration :=
  rs.reverse.find? (·.source = source)

theorem latest?_concat (rs : List Registration) (r : Registration) (source : String) :
    latest? (rs ++ [r]) source = if source = r.source then some r else latest? rs source := by
  by_cases h : source = r.source
  · simp [latest?, h]
  · have h' : r.source ≠ source := fun e => h e.symm
    simp [latest?, h, h']

/-- The types of a table stand in the order in which they were registered. -/
theorem sublist_addAll (rs : List Registration) :
    ((empty.addAll rs).types.map fun g => (g.body, g.source)).Sublist
      (rs.map fun r => (r.body, r.source)) := by
  -- from the end, since a registration puts its type behind all others
  induction rs using List.reverseRecOn with
  | nil => exact List.Sublist.refl _
  | append_singleton rs r ih =>
    rw [addAll_concat, List.map_append]
    rcases (registers_add (empty.addAll rs) r).types with h | h
    · rw [h]
      exact ih.trans (List.sublist_append_left _ _)
    · rw [h, List.map_append]
      exact ih.append (List.Sublist.refl _)

/-- A registration with a tag of its own is the last one with that tag. -/
theorem latest?_of_mem {rs : List Registration} (hnodup : (rs.map Registration.source).Nodup)
    {r : Registration} (h : r ∈ rs) : latest? rs r.source = some r := by
  cases hf : latest? rs r.source with
  | none =>
    rw [latest?, List.find?_eq_none] at hf
    exact absurd (hf r (List.mem_reverse.2 h)) (by simp)
  | some r' =>
    have hsource : r'.source = r.source := by simpa using List.find?_some hf
    have hmem := List.mem_reverse.1 (List.mem_of_find?_eq_some hf)
    rw [List.inj_on_of_nodup_map hnodup hmem h hsource]

/-- A tag leads to a type with the body of its last registration, under the name that this
asked for or one with a number. -/
theorem nameFor_addAll (t : TypeTable) (rs : List Registration) (source : String) :
    match latest? rs source with
    | none => (t.addAll rs).nameFor source = t.nameFor source
    | some r => ∃ n g, (t.addAll rs).nameFor source = some (candidate r.name n) ∧
        (t.addAll rs).get? (candidate r.name n) = some g ∧ g.body = r.body := by
  -- from the end, since the last registration with the tag counts
  induction rs using List.reverseRecOn with
  | nil => rfl
  | append_singleton rs r ih =>
    rw [latest?_concat, addAll_concat, nameFor_add]
    by_cases h : source = r.source
    · rw [if_pos h, if_pos h]
      obtain ⟨g, hg, hb⟩ := get?_settledName_add (t.addAll rs) r.name r.body r.source
      obtain ⟨n, hn, -⟩ := isFirst_settledName (t.addAll rs) r.name r.body
      exact ⟨n, g, congrArg some hn, hn ▸ hg, hb⟩
    · rw [if_neg h, if_neg h]
      cases hl : latest? rs source with
      | none => simpa only [hl] using ih
      | some r' =>
        rw [hl] at ih
        obtain ⟨n, g, hn, hg, hb⟩ := ih
        exact ⟨n, g, hn, get?_of_prefix (prefix_add _ _ _ _) hg, hb⟩

/-- Tags whose last registrations share a final name were last registered with the same body. -/
theorem body_eq_of_nameFor_eq {t : TypeTable} {rs : List Registration} {a b : String}
    {ra rb : Registration} (ha : latest? rs a = some ra) (hb : latest? rs b = some rb)
    (h : (t.addAll rs).nameFor a = (t.addAll rs).nameFor b) : ra.body = rb.body := by
  have hla := nameFor_addAll t rs a
  have hlb := nameFor_addAll t rs b
  rw [ha] at hla
  rw [hb] at hlb
  obtain ⟨n, g, hn, hg, hga⟩ := hla
  obtain ⟨m, g', hm, hg', hgb⟩ := hlb
  rw [hn, hm, Option.some.injEq] at h
  rw [h, hg', Option.some.injEq] at hg
  rw [← hga, ← hgb, hg]

/-- Registering the same name and body once more, after any further registrations and under any
tag, gives the same final name and no new type. -/
theorem add_again (t : TypeTable) (r : Registration) (rs : List Registration) (source : String) :
    (t.addAll (r :: rs)).settledName r.name r.body = t.settledName r.name r.body ∧
      ((t.addAll (r :: rs)).add r.name r.body source).types = (t.addAll (r :: rs)).types := by
  obtain ⟨g, hg, hb⟩ := get?_settledName_add t r.name r.body r.source
  -- the type with the body is still there when the name is asked for again
  have hlater : (t.addAll (r :: rs)).get? (t.settledName r.name r.body) = some g :=
    get?_of_prefix (prefix_addAll (t.add r.name r.body r.source) rs) hg
  have hsame := settledName_of_holds (prefix_addAll t (r :: rs)) hlater hb
  refine ⟨hsame, ?_⟩
  rw [types_add, hsame, contains, hlater]
  rfl

/-- After any history of registrations the table is sound, every type is found under its own name,
and types stand in the order of registration. One more registration, with any name, body and tag,
does what `Registers` says. Tags that share a final name were last registered with the same body,
and what was registered once is found again later. -/
theorem addAll_keeps_promises (rs : List Registration) :
    (empty.addAll rs).Sound ∧
    (∀ g, g ∈ (empty.addAll rs).types → (empty.addAll rs).get? g.name = some g) ∧
    ((empty.addAll rs).types.map fun g => (g.body, g.source)).Sublist
      (rs.map fun r => (r.body, r.source)) ∧
    (∀ r : Registration, (empty.addAll rs).Registers r
      ((empty.addAll rs).register r.name r.body r.source).value.1
      ((empty.addAll rs).register r.name r.body r.source).value.2) ∧
    (∀ a b ra rb, latest? rs a = some ra → latest? rs b = some rb →
      (empty.addAll rs).nameFor a = (empty.addAll rs).nameFor b → ra.body = rb.body) ∧
    (∀ before r after source, rs = before ++ r :: after →
      (empty.addAll rs).settledName r.name r.body =
        (empty.addAll before).settledName r.name r.body ∧
      ((empty.addAll rs).add r.name r.body source).types = (empty.addAll rs).types) := by
  have hsound := sound_empty.addAll rs
  refine ⟨hsound, fun g hg => hsound.get?_name hg, sublist_addAll rs, ?_,
    fun a b ra rb ha hb h => body_eq_of_nameFor_eq ha hb h, ?_⟩
  · intro r
    rw [value_register]
    exact registers_add _ r
  · rintro before r after source rfl
    rw [addAll_append]
    exact add_again _ r after source

end TypedClients.TypeTable
