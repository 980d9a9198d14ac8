import TypedClients.Proofs.TypeText.Literals

/-!
# The text of a schema is read as the schema's type

Whatever a schema is written as, reading it gives the type that the schema stands for, however
arrays, compositions, literals and null are nested. The names in the table must be
identifiers, as type names are.

A schema is written by a few operations on texts, and what it stands for is made by the same
operations on types. So a relation between texts and types holds between the text of a schema
and its type if it is *compositional*: if it holds of identifiers and literals and is kept by
every operation. Being read as a type is one such relation.

* `Compositional.of_render`: a compositional relation holds of the text of every schema.
* `compositional_spelled`: spelling a type is compositional.
* `Schema.read_render`: the text is read as the type, up to flattening and repeated null.
-/

namespace TypedClients.Schema

open TypeText (Spelled arrayOf compose withNull braced member unknown)
open TypeTree (composed orNull unionOf)

variable {names : Ordered String}

/-! ## Relations between texts and types -/

/-- A relation between texts and types that holds of identifiers and literals and is kept by
the operations that put them together. -/
structure Compositional (P : String → TypeTree → Prop) : Prop where
  identifier : ∀ {name : String}, Naming.isIdentifier name.toList = true → P name (.atom name)
  literal : ∀ {v : Value} {text : String}, literal v = .ok text → P text (TypeTree.literal text)
  empty : P "\x7b\x7d" (.object [])
  withNull : ∀ {text : String} {δ : TypeTree}, P text δ → ∀ n, P (withNull n text) (orNull n δ)
  arrayOf : ∀ {text : String} {δ : TypeTree}, P text δ → P (arrayOf text) (.array δ)
  dictionary : ∀ {text : String} {δ : TypeTree}, P text δ →
    P ("Record<string, " ++ text ++ ">") (.record δ)
  union : ∀ {ts : List String} {δs : List TypeTree}, ts ≠ [] → List.Forall₂ P ts δs →
    P (Text.joinStrings " | " ts) (unionOf δs)
  compose : ∀ (mode : Composition) {ts : List String} {δs : List TypeTree}, List.Forall₂ P ts δs →
    P (compose mode ts) (composed mode δs)
  braced : ∀ {ts : List String} {ms : List (String × Bool × TypeTree)}, ts ≠ [] →
    List.Forall₂ (fun t m => ∃ type, P type m.2.2 ∧
      t = member (Naming.propertyKey m.1) (!m.2.1) type) ts ms → P (braced ts) (.object ms)

namespace Compositional

variable {P : String → TypeTree → Prop}

theorem of_referenceName (hP : Compositional P)
    (hnames : ∀ e, e ∈ names → Naming.isIdentifier e.2.toList = true) (ref : String) :
    P (referenceName names ref) (referenceType names ref) := by
  rw [referenceType_eq]
  refine hP.identifier ?_
  unfold Schema.referenceName
  cases h : names.get? (refName ref) with
  | some name =>
    obtain ⟨e, he, rfl⟩ := Option.map_eq_some_iff.1 h
    exact hnames e (List.mem_of_find?_eq_some he)
  | none => exact Naming.isIdentifier_identifier _

theorem of_scalarName (hP : Compositional P) (type : Option String) :
    P (scalarName type) (scalarType type) := by
  rw [scalarType_eq]
  refine hP.identifier ?_
  unfold Schema.scalarName
  split
  next e hfind =>
    have hall : ∀ e, e ∈ scalarNames → Naming.isIdentifier e.2.toList = true := by decide
    exact hall _ (List.mem_of_find?_eq_some hfind)
  next => decide

theorem of_unknown (hP : Compositional P) : P unknown (.atom "unknown") := hP.identifier (by decide)

theorem of_literals (hP : Compositional P) {vs : List Value} {ts : List String}
    (h : vs.mapM Schema.literal = .ok ts) :
    ts.length = vs.length ∧ ∃ δs, vs.mapM literalType = .ok δs ∧ List.Forall₂ P ts δs := by
  induction vs generalizing ts with
  | nil =>
    cases h
    exact ⟨rfl, [], rfl, .nil⟩
  | cons v vs ih =>
    rw [List.mapM_cons] at h ⊢
    obtain ⟨t, ht, h⟩ := bind_eq_ok.1 h
    obtain ⟨us, hus, he⟩ := bind_eq_ok.1 h
    cases he
    obtain ⟨hlength, δs, hδs, hall⟩ := ih hus
    refine ⟨congrArg (· + 1) hlength, TypeTree.literal t :: δs, ?_, .cons (hP.literal ht) hall⟩
    rw [literalType_eq_ok ht, hδs]
    rfl

mutual

/-- A compositional relation holds between the text of a schema and the type it stands for. -/
theorem of_render (hP : Compositional P)
    (hnames : ∀ e, e ∈ names → Naming.isIdentifier e.2.toList = true) (s : Schema) :
    ∀ text, s.render names = .ok text → ∃ δ, s.denote names = .ok δ ∧ P text δ := by
  match s with
  | .primitive type format none n =>
    intro _ h
    rw [render] at h
    cases h
    refine ⟨_, ?_, hP.withNull (hP.of_scalarName type) n⟩
    rw [denote]
  | .primitive type format (some []) n =>
    intro _ h
    rw [render] at h
    cases h
    refine ⟨_, ?_, hP.withNull (hP.of_scalarName type) n⟩
    rw [denote]
  | .primitive type format (some (v :: vs)) n =>
    intro _ h
    rw [render] at h
    · obtain ⟨ts, hts, he⟩ := bind_eq_ok.1 h
      cases he
      obtain ⟨hlength, δs, hδs, hall⟩ := hP.of_literals hts
      refine ⟨orNull n (unionOf δs), ?_, hP.withNull (hP.union ?_ hall) n⟩
      · rw [denote, hδs]
        · rfl
        · exact List.cons_ne_nil v vs
      · exact List.ne_nil_of_length_pos (hlength.symm ▸ Nat.succ_pos vs.length)
    · exact List.cons_ne_nil v vs
  | .array items n =>
    intro _ h
    rw [render] at h
    obtain ⟨t, ht, he⟩ := bind_eq_ok.1 h
    cases he
    obtain ⟨δ, hδ, hitems⟩ := of_render hP hnames items t ht
    refine ⟨_, ?_, hP.withNull (hP.arrayOf hitems) n⟩
    rw [denote, hδ]
    rfl
  | .object [] required additional n =>
    intro _ h
    rw [render] at h
    cases h
    refine ⟨_, ?_, hP.withNull hP.empty n⟩
    rw [denote, denoteProperties]
    rfl
  | .object (p :: ps) required additional n =>
    intro _ h
    rw [render] at h
    obtain ⟨ts, hts, he⟩ := bind_eq_ok.1 h
    cases he
    obtain ⟨hlength, ms, hms, hall⟩ := of_renderProperties hP hnames required (p :: ps) ts hts
    refine ⟨orNull n (.object ms), ?_, hP.withNull (hP.braced ?_ hall) n⟩
    · rw [denote, hms]
      rfl
    · exact List.ne_nil_of_length_pos (hlength.symm ▸ Nat.succ_pos ps.length)
  | .dictionary required none n =>
    intro _ h
    rw [render] at h
    cases h
    refine ⟨_, ?_, hP.withNull (hP.dictionary hP.of_unknown) n⟩
    rw [denote]
  | .dictionary required (some s) n =>
    intro _ h
    rw [render] at h
    obtain ⟨t, ht, he⟩ := bind_eq_ok.1 h
    cases he
    obtain ⟨δ, hδ, hvalue⟩ := of_render hP hnames s t ht
    refine ⟨_, ?_, hP.withNull (hP.dictionary hvalue) n⟩
    rw [denote, hδ]
    rfl
  | .composite mode members n =>
    intro _ h
    rw [render] at h
    obtain ⟨ts, hts, he⟩ := bind_eq_ok.1 h
    cases he
    obtain ⟨δs, hδs, hall⟩ := of_renderMembers hP hnames members ts hts
    refine ⟨_, ?_, hP.withNull (hP.compose mode hall) n⟩
    rw [denote, hδs]
    rfl
  | .reference ref n =>
    intro _ h
    rw [render] at h
    cases h
    refine ⟨_, ?_, hP.withNull (hP.of_referenceName hnames ref) n⟩
    rw [denote]

theorem of_renderMembers (hP : Compositional P)
    (hnames : ∀ e, e ∈ names → Naming.isIdentifier e.2.toList = true) (ms : List Schema) :
    ∀ ts, renderMembers names ms = .ok ts →
      ∃ δs, denoteMembers names ms = .ok δs ∧ List.Forall₂ P ts δs := by
  match ms with
  | [] =>
    intro _ h
    rw [renderMembers] at h
    cases h
    refine ⟨[], ?_, .nil⟩
    rw [denoteMembers]
  | m :: ms =>
    intro _ h
    rw [renderMembers] at h
    obtain ⟨t, ht, h⟩ := bind_eq_ok.1 h
    obtain ⟨ts, hts, he⟩ := bind_eq_ok.1 h
    cases he
    obtain ⟨δ, hδ, hm⟩ := of_render hP hnames m t ht
    obtain ⟨δs, hδs, hall⟩ := of_renderMembers hP hnames ms ts hts
    refine ⟨δ :: δs, ?_, .cons hm hall⟩
    rw [denoteMembers, hδ, hδs]
    rfl

theorem of_renderProperties (hP : Compositional P)
    (hnames : ∀ e, e ∈ names → Naming.isIdentifier e.2.toList = true) (required : List String)
    (ps : List (String × Schema)) :
    ∀ ts, renderProperties names required ps = .ok ts →
      ts.length = ps.length ∧ ∃ ms, denoteProperties names required ps = .ok ms ∧
        List.Forall₂ (fun t m => ∃ type, P type m.2.2 ∧
          t = member (Naming.propertyKey m.1) (!m.2.1) type) ts ms := by
  match ps with
  | [] =>
    intro _ h
    rw [renderProperties] at h
    cases h
    refine ⟨rfl, [], ?_, .nil⟩
    rw [denoteProperties]
  | (name, p) :: ps =>
    intro _ h
    rw [renderProperties] at h
    obtain ⟨t, ht, h⟩ := bind_eq_ok.1 h
    obtain ⟨ts, hts, he⟩ := bind_eq_ok.1 h
    cases he
    obtain ⟨δ, hδ, hp⟩ := of_render hP hnames p t ht
    obtain ⟨hlength, ms, hms, hall⟩ := of_renderProperties hP hnames required ps ts hts
    refine ⟨congrArg (· + 1) hlength, (name, !required.contains name, δ) :: ms, ?_,
      .cons ⟨t, hp, ?_⟩ hall⟩
    · rw [denoteProperties, hδ, hms]
      rfl
    · rw [Bool.not_not]

end

end Compositional

/-! ## Spelling -/

theorem spelled_literal {v : Value} {text : String} (h : literal v = .ok text) :
    Spelled text (TypeTree.literal text) := by
  refine TypeText.spelled_of_atomic ?_ rfl
  unfold literal at h
  split at h
  next s =>
    cases h
    exact TypeText.atomic_literal rfl (TypeText.escaped_quotedChar s.toList) String.toList_ofList
  next =>
    split at h
    next t ht =>
      cases h
      exact (TypeText.isLiteral_of_form (Json.form_compact _ _ ht)).atomic
    next => cases h

/-- Spelling a type is compositional. -/
theorem compositional_spelled : Compositional Spelled where
  identifier h := by
    obtain ⟨⟨c, rest, hs, -⟩, hall⟩ := TypeText.parts_of_isIdentifier h
    exact TypeText.spelled_word (hs ▸ List.cons_ne_nil _ _) hall
  literal h := spelled_literal h
  empty := TypeText.spelled_empty
  withNull h n := h.withNull n
  arrayOf h := h.arrayOf
  dictionary h := h.dictionary
  union hne h := TypeText.spelled_union hne h
  compose mode _ _ h := TypeText.spelled_compose mode h
  braced hne h := TypeText.spelled_braced hne h

/-- The text of a schema spells the type it stands for. -/
theorem spelled_render (hnames : ∀ e, e ∈ names → Naming.isIdentifier e.2.toList = true)
    (s : Schema) : ∀ text, s.render names = .ok text →
      ∃ δ, s.denote names = .ok δ ∧ Spelled text δ :=
  compositional_spelled.of_render hnames s

/-- What a schema is written as is read as the type it stands for. -/
theorem read_render (hnames : ∀ e, e ∈ names → Naming.isIdentifier e.2.toList = true) {s : Schema}
    {text : String} (h : s.render names = .ok text) :
    ∃ τ δ, TypeText.read text = some τ ∧ s.denote names = .ok δ ∧ τ.Same δ := by
  obtain ⟨δ, hδ, hspelled⟩ := spelled_render hnames s text h
  obtain ⟨τ, hτ, hsame⟩ := hspelled.read
  exact ⟨τ, δ, hτ, hδ, hsame⟩

/-- Lists of pets of one of two kinds, with null in an operand, a bar in a literal and null
twice. -/
def petsByKind : Schema :=
  .array (.composite .allOf
    [.reference "#/definitions/Pet" true,
      .object [("kind", .primitive none none (some [.str "cat|dog", .null]) true)] [] none false]
    false) true

theorem read_petsByKind :
    (∀ e, e ∈ [("Pet", "Animal")] → Naming.isIdentifier e.2.toList = true) ∧
      petsByKind.render [("Pet", "Animal")] =
        .ok "((Animal | null) & \x7b kind?: 'cat|dog' | null \x7d)[] | null" ∧
      ∃ τ δ, TypeText.read "((Animal | null) & \x7b kind?: 'cat|dog' | null \x7d)[] | null" =
      some τ ∧
        petsByKind.denote [("Pet", "Animal")] = .ok δ ∧ τ.Same δ := by
  have hnames : ∀ e, e ∈ [("Pet", "Animal")] → Naming.isIdentifier e.2.toList = true := by decide
  have htext : petsByKind.render [("Pet", "Animal")] =
      .ok "((Animal | null) & \x7b kind?: 'cat|dog' | null \x7d)[] | null" :=
    Failure.eq_ok_of_toOption (by decide +kernel)
  exact ⟨hnames, htext, read_render hnames htext⟩

end TypedClients.Schema
