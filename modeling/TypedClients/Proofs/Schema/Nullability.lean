import TypedClients.Proofs.Migration.Schemas
import TypedClients.Proofs.TypeText.Expansion

/-!
# Null from a document to a type

A schema object says in one of several ways that a value may be null, and whatever else it
says, this becomes the marker of the schema that is read from it. The text of a schema with
the marker set has null among its alternatives: it is looked for among what stands between the
bars of the text, and added only if it is not there.

* `Schema.nullable_ofValue`: a schema has the marker if the object it is read from admits null.
* `TypeText.count_withNull`: an added null is the only one.
* `Schema.null_kept_and_added_once`: both together.
-/

namespace TypedClients

/-! ## Alternatives of a text -/

/-- What is an alternative of a member is one of the union. -/
theorem TypeTree.mem_alternatives_unionOf {a b : TypeTree} {l : List TypeTree} (ha : a ∈ l)
    (hb : b ∈ a.alternatives) : b ∈ (unionOf l).alternatives := by
  induction l with
  | nil => exact absurd ha List.not_mem_nil
  | cons c l ih =>
    cases l with
    | nil => exact List.mem_singleton.1 ha ▸ hb
    | cons d l =>
      rw [unionOf_cons_cons, alternatives_union]
      rcases List.mem_cons.1 ha with rfl | ha
      · exact List.mem_append_left _ hb
      · exact List.mem_append_right _ (ih ha)

namespace TypeText

open Text (joinWith joinWith_append)
open TypeTree (unionOf)

variable {text : String} {δ : TypeTree}

/-- The alternatives of a written type: what stands between its bars outside of brackets and
quotes, without the blanks around it. -/
def alternatives (text : String) : List String :=
  ((splitTopLevel '|' text.toList).map Text.trim).map String.ofList

theorem hasNull_iff : hasNull text = true ↔ "null" ∈ alternatives text := by
  simp [hasNull, alternatives, ← String.toList_inj]

/-- A text is read as the union of the types that its alternatives are read as. -/
theorem Spelled.read_alternatives (h : Spelled text δ) :
    ∃ τs, (alternatives text).map TypeText.read = τs.map some ∧
      TypeText.read text = some (unionOf τs) := by
  obtain ⟨τ, hτ, -⟩ := h
  obtain ⟨parts, -, hparts, -, rfl, hpieces⟩ := hτ.pieces
  refine ⟨parts.map Prod.snd, ?_, hτ.read⟩
  rw [alternatives, hpieces, List.map_map, List.map_map, List.map_map]
  refine List.map_congr_left fun p hp => Alternatives.read ?_
  rw [String.toList_ofList]
  exact (hparts p hp).alternatives

/-! ## Null is added once -/

theorem operands_null : Operands "null".toList TypeTree.null :=
  (atomic_word (by decide) (List.all_eq_true.1 (by decide))).operands

/-- A text with null among its alternatives is read as a type with null among its own. -/
theorem Spelled.null_mem (h : Spelled text δ) (hnull : "null" ∈ alternatives text) :
    ∃ τ, TypeText.read text = some τ ∧ TypeTree.null ∈ τ.alternatives := by
  obtain ⟨τs, hτs, hread⟩ := h.read_alternatives
  have hmem : some TypeTree.null ∈ τs.map some :=
    hτs ▸ List.mem_map.2 ⟨"null", hnull, operands_null.alternatives.read⟩
  obtain ⟨τ, hτ, he⟩ := List.mem_map.1 hmem
  obtain rfl := Option.some.inj he
  exact ⟨_, hread, TypeTree.mem_alternatives_unionOf hτ (List.mem_singleton.2 rfl)⟩

/-- A null put behind a text is one more alternative. -/
theorem Spelled.alternatives_add_null (h : Spelled text δ) :
    alternatives (text ++ " | null") = alternatives text ++ ["null"] := by
  obtain ⟨τ, hτ, -⟩ := h
  obtain ⟨parts, hne, hparts, htext, -, hpieces⟩ := hτ.pieces
  have hmore : (text ++ " | null").toList =
      joinWith (around '|') (parts.map Prod.fst ++ ["null".toList]) := by
    rw [joinWith_append _ (fun e => hne (List.map_eq_nil_iff.1 e)) (List.cons_ne_nil _ _), ← htext]
    simp [around, joinWith]
  have hsplit : (splitTopLevel '|' (text ++ " | null").toList).map Text.trim =
      (splitTopLevel '|' text.toList).map Text.trim ++ ["null".toList] := by
    rw [hmore, hpieces]
    refine trim_splitTopLevel_joinWith (by simp) (fun s hs => ?_) (Or.inl rfl : Blank [])
    rcases List.mem_append.1 hs with hs | hs
    · obtain ⟨p, hp, rfl⟩ := List.mem_map.1 hs
      exact ⟨(hparts p hp).even, (hparts p hp).unbarred, (hparts p hp).trimmed⟩
    · obtain rfl := List.mem_singleton.1 hs
      exact ⟨operands_null.even, operands_null.unbarred, operands_null.trimmed⟩
  rw [alternatives, hsplit, List.map_append]
  rfl

/-- A type that is made to admit null has one null, or as many as it had before. -/
theorem count_withNull (h : Spelled text δ) :
    (alternatives (withNull true text)).count "null" = max 1
    ((alternatives text).count "null") := by
  rw [withNull, Bool.not_true, Bool.false_or]
  split
  next hnull =>
    have hpos := List.count_pos_iff.2 (hasNull_iff.1 hnull)
    exact (Nat.max_eq_right hpos).symm
  next hnull =>
    have hzero := List.count_eq_zero.2 fun hmem => hnull (hasNull_iff.2 hmem)
    rw [h.alternatives_add_null, List.count_append, hzero]
    rfl

end TypeText

/-! ## The marker of a schema object -/

namespace Schema

open TypeText (Spelled alternatives)

variable {names : Ordered String} {v : Value} {s : Schema}

theorem nullable_scalar {values : Option (List Value)} (h : scalar v values = .ok s) :
    s.nullable = v.admitsNull := by
  obtain ⟨format, -, he⟩ := bind_eq_ok.1 h
  cases he
  rfl

theorem nullable_ofFields {additional : Option Schema} (h : ofFields v additional = .ok s) :
    s.nullable = v.admitsNull := by
  unfold ofFields at h
  split at h
  · split at h
    · obtain ⟨ps, -, h⟩ := bind_eq_ok.1 h
      split at h
      · cases h
        rfl
      · cases h
    · cases h
      rfl
  · split at h
    · cases h
      rfl
    · exact nullable_scalar h

/-- Whatever kind of schema is read from an object, its marker says whether the object admits
null. -/
theorem nullable_ofValue (hmap : v.isMap = true) (h : ofValue v = .ok s) :
    s.nullable = v.admitsNull := by
  rw [ofValue_eq, hmap, Bool.not_true, if_neg Bool.false_ne_true] at h
  split at h
  · cases h
  split at h
  next =>
    cases h
    rfl
  next =>
    split at h
    · split at h
      next =>
        cases h
        rfl
      next =>
        obtain ⟨t, -, he⟩ := bind_eq_ok.1 h
        cases he
        rfl
    · split at h
      next => exact nullable_scalar h
      next =>
        split at h
        next =>
          obtain ⟨ms, -, he⟩ := bind_eq_ok.1 h
          cases he
          rfl
        next =>
          split at h
          next =>
            obtain ⟨t, -, h⟩ := bind_eq_ok.1 h
            exact nullable_ofFields h
          next => exact nullable_ofFields h

/-! ## Null among the alternatives -/

/-- What a schema with the marker set is written as is what it is written as without, made to
admit null. -/
theorem render_of_nullable (hnull : s.nullable = true) {text : String}
    (h : s.render names = .ok text) :
    ∃ plain, (s.withNullable false).render names = .ok plain ∧
      text = TypeText.withNull true plain := by
  rw [← withNullable_nullable s, hnull, render_withNullable] at h
  obtain ⟨plain, hplain, he⟩ := bind_eq_ok.1 h
  exact ⟨plain, hplain, (Except.ok.inj he).symm⟩

/-- The text of a schema with the marker set has null among its alternatives, and so has the
type it is read as. -/
theorem null_of_nullable (hnames : ∀ e, e ∈ names → Naming.isIdentifier e.2.toList = true)
    (hnull : s.nullable = true) {text : String} (h : s.render names = .ok text) :
    "null" ∈ alternatives text ∧
      ∃ τ, TypeText.read text = some τ ∧ TypeTree.null ∈ τ.alternatives := by
  obtain ⟨plain, hplain, rfl⟩ := render_of_nullable hnull h
  obtain ⟨δ, -, hspelled⟩ := spelled_render hnames _ _ hplain
  have hmem : "null" ∈ alternatives (TypeText.withNull true plain) := by
    rw [← List.count_pos_iff, TypeText.count_withNull hspelled]
    exact Nat.lt_of_lt_of_le Nat.one_pos (Nat.le_max_left _ _)
  exact ⟨hmem, (hspelled.withNull true).null_mem hmem⟩

/-- A schema object that admits null, in whichever way and whatever else it says, is written
with null among its alternatives; and setting the marker of a schema adds a null to its text
exactly if there is none. -/
theorem null_kept_and_added_once
    (hnames : ∀ e, e ∈ names → Naming.isIdentifier e.2.toList = true) :
    (∀ (v : Value) (s : Schema) (text : String), v.isMap = true → v.admitsNull = true →
      ofValue v = .ok s → s.render names = .ok text →
        "null" ∈ alternatives text ∧
          ∃ τ, TypeText.read text = some τ ∧ TypeTree.null ∈ τ.alternatives) ∧
    (∀ (s : Schema) (plain : String), (s.withNullable false).render names = .ok plain →
      ∃ marked, (s.withNullable true).render names = .ok marked ∧
        (alternatives marked).count "null" = max 1 ((alternatives plain).count "null")) ∧
    ∀ (s : Schema) (e : Failure), (s.withNullable false).render names = .error e →
      (s.withNullable true).render names = .error e := by
  refine ⟨fun v s text hmap hnull hs htext => ?_, fun s plain hplain => ?_, fun s e herror => ?_⟩
  · exact null_of_nullable hnames ((nullable_ofValue hmap hs).trans hnull) htext
  · obtain ⟨δ, -, hspelled⟩ := spelled_render hnames _ _ hplain
    refine ⟨TypeText.withNull true plain, ?_, TypeText.count_withNull hspelled⟩
    rw [render_withNullable, hplain]
    rfl
  · rw [render_withNullable, herror]
    rfl

/-- One of two texts, the first of which only looks like null. -/
def markedText : Value :=
  .map [(.str "type", .list [.str "string", .str "null"]),
    (.str "enum", .list [.str "null", .str "a|b"])]

/-- Null twice among literals, one of which is a bar. -/
def nullTwice : Schema := .primitive none none (some [.null, .str "|", .null]) false

theorem null_kept_and_added_once_quoted :
    (∀ e, e ∈ [("Pet", "Pet")] → Naming.isIdentifier e.2.toList = true) ∧
      (∃ s, ofValue markedText = .ok s ∧ s.render [("Pet", "Pet")] = .ok "'null' | 'a|b' | null" ∧
        "null" ∈ alternatives "'null' | 'a|b' | null") ∧
      ∃ marked, (nullTwice.withNullable true).render [("Pet", "Pet")] = .ok marked ∧
        (alternatives marked).count "null" =
          max 1 ((alternatives "null | '|' | null").count "null") := by
  have hnames : ∀ e, e ∈ [("Pet", "Pet")] → Naming.isIdentifier e.2.toList = true := by decide
  have hmarked : (ofValue markedText >>= render [("Pet", "Pet")]) = .ok "'null' | 'a|b' | null" :=
    Failure.eq_ok_of_toOption (by decide +kernel)
  have htwice : (nullTwice.withNullable false).render [("Pet", "Pet")] =
      .ok "null | '|' | null" := Failure.eq_ok_of_toOption (by decide +kernel)
  obtain ⟨hkept, hadded, -⟩ := null_kept_and_added_once hnames
  obtain ⟨s, hs, htext⟩ := bind_eq_ok.1 hmarked
  exact ⟨hnames, ⟨s, hs, htext, (hkept markedText s _ rfl (by decide) hs htext).1⟩,
    hadded nullTwice _ htwice⟩

end Schema

end TypedClients
