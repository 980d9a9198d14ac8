import Mathlib.Data.List.Forall2
import TypedClients.Proofs.Naming.Identifiers
import TypedClients.Proofs.Operation.Keys
import TypedClients.Proofs.Types.History
import TypedClients.Types.Endpoints

/-!
# The types of operations in the table

Adding the types of operations is a history of registrations, one for each request and each
answer, in order (`exists_registrations`). The tags of these registrations are distinct, since
operations have distinct keys, so none of them loses its type to another one
(`typed_of_addEndpoints`).
-/

namespace TypedClients

/-! ## Tags -/

theorem requestSource_injective {o o' : Operation} (h : requestSource o = requestSource o') :
    o.key = o'.key := by
  have h' := congrArg String.toList h
  rw [requestSource, requestSource, String.toList_append, String.toList_append,
    String.toList_append, String.toList_append] at h'
  exact String.toList_inj.1 (List.append_cancel_left (List.append_cancel_right h'))

theorem responseSource_injective {o o' : Operation} (h : responseSource o = responseSource o') :
    o.key = o'.key := by
  have h' := congrArg String.toList h
  rw [responseSource, responseSource, String.toList_append, String.toList_append,
    String.toList_append, String.toList_append] at h'
  exact String.toList_inj.1 (List.append_cancel_left (List.append_cancel_right h'))

/-- The tag of a request is never that of an answer. -/
theorem requestSource_ne_responseSource (o o' : Operation) :
    requestSource o ≠ responseSource o' := by
  intro h
  -- the two texts do not end alike
  have hlast := congrArg (fun s : String => s.toList.getLast?) h
  have hrequest : (":request" : String).toList.getLast? = some 't' := rfl
  have hresponse : (":response" : String).toList.getLast? = some 'e' := rfl
  simp only [requestSource, responseSource, String.toList_append, List.getLast?_append, hrequest,
    hresponse, Option.some_or] at hlast
  exact absurd hlast (by decide)

namespace Endpoints

open TypeTable (Registration)

variable {index : SchemaIndex} {style : NameStyle}

/-- The types of an operation: the tag of each, and how its body is written. -/
def bodies (index : SchemaIndex) (names : Ordered String) (o : Operation) :
    List (String × Checked String) :=
  (o.requestBody.toList.map fun s => (requestSource o, s.renderOperation index names)) ++
    [(responseSource o, responseBody o index names)]

theorem map_fst_bodies (names : Ordered String) (o : Operation) :
    (bodies index names o).map Prod.fst = sourcesOf o := by
  rw [bodies, sourcesOf]
  cases o.requestBody with
  | none => rfl
  | some s => rfl

theorem mem_sourcesOf {tag : String} {o : Operation} (h : tag ∈ sourcesOf o) :
    tag = requestSource o ∨ tag = responseSource o := by
  rw [sourcesOf, List.mem_append, List.mem_singleton] at h
  rcases h with h | h
  · split at h
    · exact Or.inl (List.mem_singleton.1 h)
    · exact absurd h List.not_mem_nil
  · exact Or.inr h

/-- A tag belongs to one operation. -/
theorem key_eq_of_mem_sourcesOf {tag : String} {o o' : Operation} (h : tag ∈ sourcesOf o)
    (h' : tag ∈ sourcesOf o') : o.key = o'.key := by
  rcases mem_sourcesOf h with rfl | rfl
  · rcases mem_sourcesOf h' with e | e
    · exact requestSource_injective e
    · exact absurd e (requestSource_ne_responseSource o o')
  · rcases mem_sourcesOf h' with e | e
    · exact absurd e.symm (requestSource_ne_responseSource o' o)
    · exact responseSource_injective e

theorem nodup_sourcesOf (o : Operation) : (sourcesOf o).Nodup := by
  rw [sourcesOf]
  split
  · rw [List.singleton_append, List.nodup_cons, List.mem_singleton]
    exact ⟨requestSource_ne_responseSource o o, List.nodup_singleton _⟩
  · exact List.nodup_singleton _

/-- Operations with distinct keys have distinct tags. -/
theorem nodup_flatMap_sourcesOf {os : List Operation} (h : (os.map Operation.key).Nodup) :
    (os.flatMap sourcesOf).Nodup := by
  rw [List.nodup_flatMap]
  refine ⟨fun o _ => nodup_sourcesOf o, ?_⟩
  rw [List.Nodup, List.pairwise_map] at h
  exact h.imp fun hne _ ha hb => hne (key_eq_of_mem_sourcesOf ha hb)

/-! ## Registrations -/

/-- A registration of a type: under its tag, with the body as it is written, and under a name that
is an identifier. -/
structure RegisteredBy (b : String × Checked String) (r : Registration) : Prop where
  source : r.source = b.1
  body : b.2.outcome = .ok r.body
  name : Naming.isIdentifier r.name.toList = true

theorem exists_registration {bs : List (String × Checked String)} {rs : List Registration}
    (h : List.Forall₂ RegisteredBy bs rs) {b : String × Checked String} (hb : b ∈ bs) :
    ∃ r, r ∈ rs ∧ RegisteredBy b r := by
  induction h with
  | nil => exact absurd hb List.not_mem_nil
  | cons hr _ ih =>
    rcases List.mem_cons.1 hb with rfl | hb
    · exact ⟨_, List.mem_cons_self, hr⟩
    · obtain ⟨r, hmem, hreg⟩ := ih hb
      exact ⟨r, List.mem_cons_of_mem _ hmem, hreg⟩

theorem registeredBy_addRequest {t t' : TypeTable} {o : Operation}
    (h : (addRequest t index style o).outcome = .ok t') :
    ∃ rs, t' = t.addAll rs ∧ List.Forall₂ RegisteredBy (o.requestBody.toList.map fun s =>
      (requestSource o, s.renderOperation index t.referenceNames)) rs := by
  rw [addRequest] at h
  split at h
  next hbody =>
    rw [Checked.outcome_pure, Except.ok.injEq] at h
    rw [hbody]
    exact ⟨[], h.symm, .nil⟩
  next s hbody =>
    obtain ⟨body, hs, h⟩ := Checked.outcome_bind_eq_ok.1 h
    obtain ⟨final, hfinal, h⟩ := Checked.outcome_bind_eq_ok.1 h
    rw [Checked.outcome_logged, TypeTable.value_register, Except.ok.injEq] at hfinal
    cases h
    rw [hbody, ← hfinal]
    exact ⟨[⟨_, body, requestSource o⟩], rfl,
      .cons ⟨rfl, hs, Naming.isIdentifier_requestName _ _ _ _⟩ .nil⟩

theorem registeredBy_addResponse {t t' : TypeTable} {o : Operation}
    (h : (addResponse t index style o).outcome = .ok t') :
    ∃ r, t' = t.addAll [r] ∧
      RegisteredBy (responseSource o, responseBody o index t.referenceNames) r := by
  rw [addResponse] at h
  obtain ⟨body, hs, h⟩ := Checked.outcome_bind_eq_ok.1 h
  obtain ⟨final, hfinal, h⟩ := Checked.outcome_bind_eq_ok.1 h
  rw [Checked.outcome_logged, TypeTable.value_register, Except.ok.injEq] at hfinal
  cases h
  rw [← hfinal]
  exact ⟨⟨_, body, responseSource o⟩, rfl, rfl, hs, Naming.isIdentifier_responseName _ _ _ _⟩

/-- A tag leads to a type that is found under its name, an identifier, and has the body that is
written for the tag. -/
def Typed (t : TypeTable) (b : String × Checked String) : Prop :=
  ∃ g, t.nameFor b.1 = some g.name ∧ t.get? g.name = some g ∧ b.2.outcome = .ok g.body ∧
    Naming.isIdentifier g.name.toList = true

/-- The requests and answers of operations are registered one after the other. -/
theorem exists_registrations {t r : TypeTable} {os : List Operation}
    (h : (t.addEndpoints index style os).outcome = .ok r) :
    ∃ rs, r = t.addAll rs ∧
      List.Forall₂ RegisteredBy (os.flatMap (bodies index t.referenceNames)) rs := by
  induction os generalizing t with
  | nil =>
    rw [TypeTable.addEndpoints, Checked.outcome_pure, Except.ok.injEq] at h
    exact ⟨[], h.symm, .nil⟩
  | cons o rest ih =>
    rw [TypeTable.addEndpoints] at h
    obtain ⟨t', hrequest, h⟩ := Checked.outcome_bind_eq_ok.1 h
    obtain ⟨t'', hresponse, h⟩ := Checked.outcome_bind_eq_ok.1 h
    obtain ⟨rs, rfl, hrs⟩ := registeredBy_addRequest hrequest
    obtain ⟨r', rfl, hr'⟩ := registeredBy_addResponse hresponse
    obtain ⟨others, hothers, hrest⟩ := ih h
    -- all bodies are written with the names of the first table
    rw [TypeTable.referenceNames_addAll, TypeTable.referenceNames_addAll] at hrest
    rw [TypeTable.referenceNames_addAll] at hr'
    refine ⟨rs ++ ([r'] ++ others), ?_, ?_⟩
    · rw [TypeTable.addAll_append, TypeTable.addAll_append]
      exact hothers
    · rw [List.flatMap_cons, bodies, List.append_assoc]
      exact List.rel_append hrs (List.rel_append (.cons hr' .nil) hrest)

/-- The types of operations leave the names of definitions as they are. -/
theorem referenceNames_of_addEndpoints {t r : TypeTable} {os : List Operation}
    (h : (t.addEndpoints index style os).outcome = .ok r) :
    r.referenceNames = t.referenceNames := by
  obtain ⟨rs, rfl, -⟩ := exists_registrations h
  exact TypeTable.referenceNames_addAll t rs

/-- The tags under which the types of operations are registered. -/
theorem map_source_registrations {names : Ordered String} {os : List Operation}
    {rs : List Registration}
    (h : List.Forall₂ RegisteredBy (os.flatMap (bodies index names)) rs) :
    rs.map Registration.source = os.flatMap sourcesOf := by
  have htags : (os.flatMap (bodies index names)).map Prod.fst = rs.map Registration.source := by
    rw [← List.forall₂_eq_eq_eq, List.forall₂_map_left_iff, List.forall₂_map_right_iff]
    exact h.imp fun _ _ hr => hr.source.symm
  rw [← htags, List.map_flatMap]
  simp only [map_fst_bodies]

/-- Once the types of operations with distinct keys are added, each of their tags leads to a
type with the body that belongs to the tag, and the name of this type is an identifier. -/
theorem typed_of_addEndpoints {t r : TypeTable} {os : List Operation}
    (h : (t.addEndpoints index style os).outcome = .ok r) (hkeys : (os.map Operation.key).Nodup)
    {o : Operation} (ho : o ∈ os) {b : String × Checked String}
    (hb : b ∈ bodies index t.referenceNames o) : Typed r b := by
  obtain ⟨rs, rfl, hrs⟩ := exists_registrations h
  -- no two registrations have one tag, so the tag of each leads to its own type
  have hnodup : (rs.map Registration.source).Nodup := by
    rw [map_source_registrations hrs]
    exact nodup_flatMap_sourcesOf hkeys
  obtain ⟨reg, hmem, hreg⟩ := exists_registration hrs (List.mem_flatMap.2 ⟨o, ho, hb⟩)
  have hname := TypeTable.nameFor_addAll t rs reg.source
  rw [TypeTable.latest?_of_mem hnodup hmem] at hname
  obtain ⟨n, g, htag, hget, hbody⟩ := hname
  have hg := TypeTable.name_of_get? hget
  refine ⟨g, ?_, ?_, ?_, ?_⟩
  · rw [← hreg.source, htag, hg]
  · rw [hg]
    exact hget
  · rw [hreg.body, hbody]
  · rw [hg]
    exact Naming.isIdentifier_candidate hreg.name n

end Endpoints

end TypedClients
