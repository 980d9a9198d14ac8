import TypedClients.Proofs.Client.Words

/-!
# The types that a member writes

The arguments of a member and its answer have types in three ways: the type of a parameter is
written from its schema, the query is an object type of such types, and a body or an answer
has the name of its type in the table. Each of these texts is read as a type, whose words are
those of the text and whose names come from the operation.

* `belongs_of_member`: so it is for every type that a member writes.
* `mem_imports_iff`: a client imports the names of types that stand in such a type, as a name,
  as a key or in a literal value.
* `refers_of_occurs`: where such a name stands for a type, it comes from an operation of the
  group.
-/

namespace TypedClients

open Naming (isIdentifier)

/-- The names that a table gives are identifiers. -/
structure TypeTable.Identified (t : TypeTable) : Prop where
  references : ∀ n x, t.referenceNames.get? n = some x → isIdentifier x.toList = true
  tags : ∀ tag x, t.nameFor tag = some x → isIdentifier x.toList = true

theorem TypeTable.contains_iff {t : TypeTable} {name : String} :
    t.contains name = true ↔ name ∈ t.types.map GeneratedType.name := by
  rw [contains, get?, List.find?_isSome, List.mem_map]
  simp only [decide_eq_true_eq]

namespace Client

open Endpoints (sourcesOf)
open Schema (Written builtinNames)

/-- The types that a member writes: those of its arguments, but for the options, and that of
its answer. -/
def memberTypes (m : Member) : List String :=
  (m.arguments.filter (·.name ≠ "options")).map Argument.type ++ [m.returnType]

/-- The references in what an operation takes in the path and the query. -/
def parameterReferences (o : Operation) : List String :=
  (o.pathParams ++ o.queryParams).flatMap (·.schema.references)

/-- A name that an operation brings in: it is written for a parameter, or the name of the type
of the request or the answer. -/
def Refers (t : TypeTable) (o : Operation) (n : String) : Prop :=
  Written t.referenceNames (parameterReferences o) n ∨
    ∃ tag, tag ∈ sourcesOf o ∧ t.nameFor tag = some n

/-- A text is one of a type whose names an operation brings in. -/
def Belongs (t : TypeTable) (o : Operation) (text : String) : Prop :=
  ∃ δ, Worded text δ ∧ ∀ n, n ∈ δ.names → Refers t o n

variable {t : TypeTable} {o : Operation}

/-! ## Types of arguments and answers -/

theorem belongs_builtin {text : String} (h : text ∈ builtinNames) : Belongs t o text := by
  have hall : ∀ n, n ∈ builtinNames → isIdentifier n.toList = true := by decide
  refine ⟨.atom text, compositional_worded.identifier (hall text h), fun n hn => ?_⟩
  rw [(TypeTree.mem_names_atom.1 hn).1]
  exact Or.inl (Or.inl h)

/-- The name of the type of a request or an answer, or what stands in for it. -/
theorem belongs_nameFor (ht : t.Identified) {tag other : String} (htag : tag ∈ sourcesOf o)
    (hother : other ∈ builtinNames) : Belongs t o ((t.nameFor tag).getD other) := by
  cases hname : t.nameFor tag with
  | none => exact belongs_builtin hother
  | some x =>
    refine ⟨.atom x, compositional_worded.identifier (ht.tags tag x hname), fun n hn => ?_⟩
    rw [(TypeTree.mem_names_atom.1 hn).1]
    exact Or.inr ⟨tag, htag, hname⟩

theorem references_subset {p : Parameter} (hp : p ∈ o.pathParams ++ o.queryParams) :
    ∀ ref, ref ∈ p.schema.references → ref ∈ parameterReferences o :=
  fun _ href => List.mem_flatMap.2 ⟨p, hp, href⟩

theorem belongs_of_render (ht : t.Identified) {p : Parameter}
    (hp : p ∈ o.pathParams ++ o.queryParams) {text : String}
    (h : p.schema.render t.referenceNames = .ok text) : Belongs t o text := by
  obtain ⟨δ, hworded, hwritten⟩ := compositional_worded.exists_written ht.references h
  exact ⟨δ, hworded, fun n hn => Or.inl ((hwritten n hn).mono (references_subset hp))⟩

theorem belongs_of_pathArguments (ht : t.Identified) {placeholders : List String}
    {arguments : List Argument}
    (h : pathArguments o t.referenceNames placeholders = .ok arguments) :
    ∀ a, a ∈ arguments → Belongs t o a.type := by
  induction placeholders generalizing arguments with
  | nil =>
    cases h
    exact fun a ha => absurd ha List.not_mem_nil
  | cons p rest ih =>
    rw [pathArguments] at h
    split at h
    next parameter hdeclared =>
      obtain ⟨type, htype, h⟩ := bind_eq_ok.1 h
      obtain ⟨others, hothers, h⟩ := bind_eq_ok.1 h
      cases h
      have hp : parameter ∈ o.pathParams :=
        List.mem_reverse.1 (List.mem_of_find?_eq_some hdeclared)
      exact List.forall_mem_cons.2
        ⟨belongs_of_render ht (List.mem_append_left _ hp) htype, ih hothers⟩
    next =>
      obtain ⟨type, htype, h⟩ := bind_eq_ok.1 h
      obtain ⟨others, hothers, h⟩ := bind_eq_ok.1 h
      cases h
      cases htype
      have hstring : Belongs t o "string" := belongs_builtin (by decide)
      exact List.forall_mem_cons.2 ⟨hstring, ih hothers⟩

theorem belongs_of_dataArguments (ht : t.Identified) :
    ∀ a, a ∈ dataArguments o t → Belongs t o a.type := by
  unfold dataArguments
  split
  next hdata =>
    intro a ha
    rw [List.mem_singleton.1 ha]
    rw [takesData, Bool.and_eq_true] at hdata
    have htag : requestSource o ∈ sourcesOf o := by
      rw [sourcesOf, if_pos hdata.1]
      exact List.mem_cons_self
    exact belongs_nameFor ht htag (by decide)
  next => exact fun a ha => absurd ha List.not_mem_nil

/-- The query parameters are written as the members of an object type. -/
theorem members_of_queryMembers (ht : t.Identified) {ps : List Parameter}
    (hps : ∀ p, p ∈ ps → p ∈ o.queryParams) {ts : List String}
    (h : queryMembers t.referenceNames ps = .ok ts) :
    ts.length = ps.length ∧ ∃ ms : List (String × Bool × TypeTree),
      List.Forall₂ (fun text m => ∃ type, Worded type m.2.2 ∧
        text = TypeText.member (Naming.propertyKey m.1) (!m.2.1) type) ts ms ∧
      ∀ n, n ∈ TypeTree.namesOfMembers ms → Refers t o n := by
  induction ps generalizing ts with
  | nil =>
    cases h
    exact ⟨rfl, [], .nil, fun n hn => absurd hn List.not_mem_nil⟩
  | cons p ps ih =>
    rw [queryMembers] at h
    obtain ⟨type, htype, h⟩ := bind_eq_ok.1 h
    obtain ⟨others, hothers, h⟩ := bind_eq_ok.1 h
    cases h
    obtain ⟨hlength, ms, hall, hrefers⟩ :=
      ih (fun q hq => hps q (List.mem_cons_of_mem _ hq)) hothers
    obtain ⟨δ, hworded, hδ⟩ :=
      belongs_of_render ht (List.mem_append_right _ (hps p List.mem_cons_self)) htype
    refine ⟨congrArg (· + 1) hlength, (p.name, !p.required, δ) :: ms,
      .cons ⟨type, hworded, by rw [Bool.not_not]⟩ hall, fun n hn => ?_⟩
    rw [TypeTree.namesOfMembers, List.mem_append] at hn
    exact hn.elim (hδ n) (hrefers n)

theorem belongs_of_queryArguments (ht : t.Identified) {arguments : List Argument}
    (h : queryArguments o t.referenceNames = .ok arguments) :
    ∀ a, a ∈ arguments → Belongs t o a.type := by
  rw [queryArguments] at h
  split at h
  next =>
    cases h
    exact fun a ha => absurd ha List.not_mem_nil
  next hempty =>
    obtain ⟨ts, hts, h⟩ := bind_eq_ok.1 h
    cases h
    intro a ha
    rw [List.mem_singleton.1 ha]
    obtain ⟨hlength, ms, hall, hrefers⟩ := members_of_queryMembers ht (fun _ hp => hp) hts
    have hne : ts ≠ [] := by
      rintro rfl
      exact hempty (List.isEmpty_iff_length_eq_zero.2 hlength.symm)
    exact ⟨.object ms, compositional_worded.braced hne hall, hrefers⟩

/-- Every type that a member writes is one of the operation's. -/
theorem belongs_of_member (ht : t.Identified) {name : String} {m : Member}
    (h : member name o t = .ok m) : ∀ text, text ∈ memberTypes m → Belongs t o text := by
  have hreturn := returnType_of_member h
  rw [member] at h
  obtain ⟨path, hpath, h⟩ := bind_eq_ok.1 h
  obtain ⟨query, hquery, h⟩ := bind_eq_ok.1 h
  intro text htext
  rcases List.mem_append.1 htext with htext | htext
  · obtain ⟨a, ha, rfl⟩ := List.mem_map.1 htext
    obtain ⟨ha, hname⟩ := List.mem_filter.1 ha
    cases h
    rcases List.mem_append.1 ha with ha | ha
    · rcases List.mem_append.1 ha with ha | ha
      · rcases List.mem_append.1 ha with ha | ha
        · exact belongs_of_pathArguments ht hpath a ha
        · exact belongs_of_dataArguments ht a ha
      · exact belongs_of_queryArguments ht hquery a ha
    · rw [List.mem_singleton.1 ha] at hname
      exact absurd hname (by decide)
  · rw [List.mem_singleton.1 htext, hreturn, returnType]
    exact belongs_nameFor ht (List.mem_append_right _ (List.mem_singleton.2 rfl)) (by decide)

/-! ## Imports -/

/-- A name stands in a type that one of the members writes, in the part of the type that is
looked at. -/
def Occurs (ms : List Member) (part : TypeTree → List String) (n : String) : Prop :=
  ∃ m, m ∈ ms ∧ ∃ text, text ∈ memberTypes m ∧ ∃ τ, TypeText.read text = some τ ∧ n ∈ part τ

variable {g : Group} {style : Endpoints.NameStyle} {client : ClientModule} {n : String}

/-- Every type that a client writes is one of an operation of its group. -/
theorem belongs_of_client (ht : t.Identified) (h : g.client t style = .ok client) {m : Member}
    (hm : m ∈ client.members) {text : String} (htext : text ∈ memberTypes m) :
    ∃ o, o ∈ g.operations ∧ Belongs t o text := by
  obtain ⟨o, ho, name, hname⟩ := exists_of_mem_members h hm
  exact ⟨o, ho, belongs_of_member ht hname text htext⟩

/-- What is imported are the names of types among the words of what the members write. -/
theorem mem_imports_iff_identifiers (h : g.client t style = .ok client) :
    n ∈ client.imports ↔ n ∈ t.types.map GeneratedType.name ∧
      ∃ m, m ∈ client.members ∧ ∃ text, text ∈ memberTypes m ∧ n ∈ identifiers text := by
  rw [Group.client] at h
  obtain ⟨ms, -, h⟩ := bind_eq_ok.1 h
  cases h
  rw [Text.mem_sortedNames, List.mem_flatMap, ← TypeTable.contains_iff]
  constructor
  · rintro ⟨m, hm, hn⟩
    obtain ⟨text, htext, hn⟩ := List.mem_flatMap.1 hn
    obtain ⟨hn, hcontains⟩ := List.mem_filter.1 hn
    exact ⟨hcontains, m, hm, text, htext, hn⟩
  · rintro ⟨hcontains, m, hm, text, htext, hn⟩
    exact ⟨m, hm, List.mem_flatMap.2 ⟨text, htext, List.mem_filter.2 ⟨hn, hcontains⟩⟩⟩

/-- A client imports the names of types that stand in the types of its members, whether they
stand for a type there, as a key without quotes or in a literal value. -/
theorem mem_imports_iff (ht : t.Identified) (h : g.client t style = .ok client) :
    n ∈ client.imports ↔ n ∈ t.types.map GeneratedType.name ∧
      (Occurs client.members TypeTree.names n ∨ Occurs client.members TypeTree.keyWords n ∨
        Occurs client.members TypeTree.literalWords n) := by
  rw [mem_imports_iff_identifiers h]
  refine and_congr_right fun _ => ?_
  constructor
  · rintro ⟨m, hm, text, htext, hn⟩
    obtain ⟨o, -, δ, hworded, -⟩ := belongs_of_client ht h hm htext
    obtain ⟨τ, hτ, -, hwords⟩ := hworded.read
    have hoccurs : ∀ {part : TypeTree → List String}, n ∈ part τ → Occurs client.members part n :=
      fun hpart => ⟨m, hm, text, htext, τ, hτ, hpart⟩
    exact ((hwords n).1 hn).imp hoccurs (Or.imp hoccurs hoccurs)
  · have hmem : ∀ {part : TypeTree → List String},
        (∀ τ : TypeTree, n ∈ part τ → n ∈ τ.names ∨ n ∈ τ.keyWords ∨ n ∈ τ.literalWords) →
        Occurs client.members part n →
        ∃ m, m ∈ client.members ∧ ∃ text, text ∈ memberTypes m ∧ n ∈ identifiers text := by
      rintro part hpart ⟨m, hm, text, htext, τ, hτ, hn⟩
      obtain ⟨o, -, δ, hworded, -⟩ := belongs_of_client ht h hm htext
      obtain ⟨τ', hτ', -, hwords⟩ := hworded.read
      obtain rfl : τ = τ' := Option.some.inj (hτ.symm.trans hτ')
      exact ⟨m, hm, text, htext, (hwords n).2 (hpart τ hn)⟩
    rintro (hn | hn | hn)
    · exact hmem (fun _ => Or.inl) hn
    · exact hmem (fun _ hkey => Or.inr (Or.inl hkey)) hn
    · exact hmem (fun _ hliteral => Or.inr (Or.inr hliteral)) hn

/-- A name that stands for a type in what the members write comes from an operation of the
group. -/
theorem refers_of_occurs (ht : t.Identified) (h : g.client t style = .ok client)
    (hn : Occurs client.members TypeTree.names n) : ∃ o, o ∈ g.operations ∧ Refers t o n := by
  obtain ⟨m, hm, text, htext, τ, hτ, hn⟩ := hn
  obtain ⟨o, ho, δ, hworded, hrefers⟩ := belongs_of_client ht h hm htext
  obtain ⟨τ', hτ', hsame, -⟩ := hworded.read
  obtain rfl : τ = τ' := Option.some.inj (hτ.symm.trans hτ')
  exact ⟨o, ho, hrefers n (hsame.mem_names.1 hn)⟩

end Client

end TypedClients
