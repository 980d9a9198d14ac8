import TypedClients.Proofs.TypeText.Declarations
import TypedClients.Proofs.TypeText.Following
import TypedClients.Proofs.TypeText.Names
import TypedClients.Proofs.Types.EndpointTypes
import TypedClients.Proofs.Types.ReferenceNames

/-!
# The types of a table can be declared

Whatever is registered for a document has an identifier as its name, and a body that a schema was
written as. So every type of the table is declared in words that can be read back, which is an
invariant of registering: it holds of the types of definitions and is kept by those of operations.

* `Definitions.writes_shaped`: the bodies of definitions.
* `Endpoints.declarable_of_addEndpoints`: what is registered for operations keeps it.
-/

namespace TypedClients

open GeneratedType (Declarable)
open TypeText (Shaped)

namespace TypeTable

theorem declarable_add {t : TypeTable} (ht : ∀ g, g ∈ t.types → Declarable g) {r : Registration}
    (hname : Naming.isIdentifier r.name.toList = true) (hbody : ∃ δ, Shaped r.body δ)
    {g : GeneratedType} (hg : g ∈ (t.add r.name r.body r.source).types) : Declarable g := by
  rcases (registers_add t r).types with hsame | hnew
  · exact ht g (hsame ▸ hg)
  · rw [hnew] at hg
    rcases List.mem_append.1 hg with hold | hlast
    · exact ht g hold
    · rw [List.mem_singleton.1 hlast]
      obtain ⟨k, hk, -⟩ := isFirst_settledName t r.name r.body
      refine ⟨?_, hbody⟩
      rw [hk]
      exact Naming.isIdentifier_candidate hname k

/-- Registrations of what can be declared keep a table of what can be declared. -/
theorem declarable_addAll {t : TypeTable} (ht : ∀ g, g ∈ t.types → Declarable g)
    {rs : List Registration}
    (hrs : ∀ r, r ∈ rs → Naming.isIdentifier r.name.toList = true ∧ ∃ δ, Shaped r.body δ) :
    ∀ g, g ∈ (t.addAll rs).types → Declarable g := by
  induction rs generalizing t with
  | nil => exact ht
  | cons r rs ih =>
    obtain ⟨hname, hbody⟩ := hrs r List.mem_cons_self
    exact ih (fun _ hg => declarable_add ht hname hbody hg) fun r' hr' =>
      hrs r' (List.mem_cons_of_mem _ hr')

end TypeTable

/-- What a schema is written as with identifiers as names has the shape of a type. -/
theorem Definitions.writes_shaped : Writes fun body => ∃ δ, Shaped body δ := by
  intro names s body hnames h
  obtain ⟨δ, hδ, -⟩ := Schema.compositional_shaped.exists_written hnames h
  exact ⟨δ, hδ⟩

namespace Endpoints

open TypeTable (Registration)

variable {index : SchemaIndex} {names : Ordered String} {style : NameStyle}

/-- What an operation is sent or answers has the shape of a type. -/
theorem shaped_of_bodies
    (hnames : ∀ n x, names.get? n = some x → Naming.isIdentifier x.toList = true)
    {o : Operation} {b : String × Checked String} (hb : b ∈ bodies index names o) {body : String}
    (h : b.2.outcome = .ok body) : ∃ δ, Shaped body δ := by
  have hany : ∃ δ, Shaped TypeText.any δ :=
    ⟨_, Schema.compositional_shaped.identifier (by decide)⟩
  have hschema : ∀ {s : Schema} {body}, (s.renderOperation index names).outcome = .ok body →
      ∃ δ, Shaped body δ := by
    intro s body h
    obtain ⟨s', hfollows⟩ : ∃ s' : Schema, Schema.Follows index names s.inner
        (s.renderOperation index names) (s'.render names) s'.references :=
      Schema.follows_renderFollowing [] s
    exact Definitions.writes_shaped names s' body hnames (hfollows.text.symm.trans h)
  rw [bodies, List.mem_append, List.mem_singleton] at hb
  rcases hb with hb | rfl
  · obtain ⟨s, -, rfl⟩ := List.mem_map.1 hb
    exact hschema h
  · have hresponse : (responseBody o index names).outcome = .ok body := h
    unfold responseBody at hresponse
    split at hresponse
    next =>
      cases hresponse
      exact hany
    next s hs =>
      obtain ⟨text, htext, hresponse⟩ := Checked.outcome_bind_eq_ok.1 hresponse
      split at hresponse
      · cases hresponse
        exact hany
      · cases hresponse
        exact hschema htext

/-- With the types of operations added, every type of a table can be declared. -/
theorem declarable_of_addEndpoints {t r : TypeTable} {os : List Operation}
    (ht : Definitions.Identified (fun body => ∃ δ, Shaped body δ) t)
    (h : (t.addEndpoints index style os).outcome = .ok r) : ∀ g, g ∈ r.types → Declarable g := by
  obtain ⟨rs, rfl, hrs⟩ := exists_registrations h
  refine TypeTable.declarable_addAll (fun g hg => ⟨ht.names g hg, ht.bodies g hg⟩) fun r hr => ?_
  -- each registration is the one of some body
  obtain ⟨i, hi, rfl⟩ := List.getElem_of_mem hr
  have hregistered := (List.forall₂_iff_get.1 hrs).2 i (hrs.length_eq ▸ hi) hi
  obtain ⟨o, -, hb⟩ := List.mem_flatMap.1 (List.get_mem _ _)
  exact ⟨hregistered.name, shaped_of_bodies ht.references hb hregistered.body⟩

end Endpoints

end TypedClients
