import Mathlib.Data.List.Forall2
import TypedClients.Proofs.TypeText.Keys

/-!
# What the operations on written types spell

A text *spells* a type if it is a union that is read as this type, up to flattening and
repeated null. The operations that put written types together spell what their names say,
although they see texts only.

* `Spelled.read`: reading a text that spells a type gives this type.
* `Spelled.arrayOf`, `spelled_compose`, `Spelled.withNull`: arrays, compositions, admitting null.
* `Spelled.dictionary`, `spelled_braced`: dictionaries and object types.
-/

namespace TypedClients.TypeText

open Text (joinWith joinStrings toList_joinStrings)
open TypeTree (interOf unionOf Same)

/-- A text is read as a type, up to flattening and repeated null. -/
def Spelled (text : String) (δ : TypeTree) : Prop := ∃ τ, Alternatives text.toList τ ∧ Same τ δ

variable {text : String} {δ : TypeTree}

/-- A union is read from its first to its last character. -/
theorem Alternatives.read {τ : TypeTree} (h : Alternatives text.toList τ) :
    TypeText.read text = some τ := by
  have hread := h.reads (ends_nil _) (Nat.le_refl _)
  rw [List.append_nil] at hread
  rw [TypeText.read, hread]
  rfl

/-- A text that spells a type is read as this type. -/
theorem Spelled.read (h : Spelled text δ) : ∃ τ, TypeText.read text = some τ ∧ Same τ δ := by
  obtain ⟨τ, hτ, hsame⟩ := h
  exact ⟨τ, hτ.read, hsame⟩

theorem spelled_of_atomic {t : List Char} (h : Atomic t δ) (ht : text.toList = t) :
    Spelled text δ := by
  subst ht
  exact ⟨δ, h.operands.alternatives, Same.refl δ⟩

/-- A word spells itself. -/
theorem spelled_word (hne : text.toList ≠ []) (h : ∀ c, c ∈ text.toList → isWordPart c = true) :
    Spelled text (.atom text) := by
  have hatomic := atomic_word hne h
  rw [String.ofList_toList] at hatomic
  exact spelled_of_atomic hatomic rfl

theorem Spelled.congr {ε : TypeTree} (h : Spelled text δ) (hsame : Same δ ε) : Spelled text ε := by
  obtain ⟨τ, hτ, hτδ⟩ := h
  exact ⟨τ, hτ, hτδ.trans hsame⟩

/-! ## Arrays and dictionaries -/

/-- An array of a type, which is put in parentheses if it is a proper union or intersection. -/
theorem Spelled.arrayOf (h : Spelled text δ) : Spelled (arrayOf text) (.array δ) := by
  obtain ⟨τ, hτ, hsame⟩ := h
  refine Spelled.congr ?_ hsame.array
  unfold TypeText.arrayOf
  split
  next => exact spelled_of_atomic hτ.parens.array (by simp)
  next hop =>
    simp only [hasTopLevelOperator, Bool.or_eq_true, not_or, Bool.not_eq_true] at hop
    exact spelled_of_atomic ((hτ.operands hop.1).atomic hop.2).array (by simp)

theorem Spelled.dictionary (h : Spelled text δ) :
    Spelled ("Record<string, " ++ text ++ ">") (.record δ) := by
  obtain ⟨τ, hτ, hsame⟩ := h
  refine Spelled.congr ?_ hsame.record
  exact spelled_of_atomic hτ.dictionary (by simp [recordName, recordOpening])

/-! ## Compositions -/

/-- Texts with an operator between them are a joined text, if each of them is. -/
theorem joined_joinStrings {operator : Char} {tree : List TypeTree → TypeTree}
    {node : TypeTree → TypeTree → TypeTree} {part : List Char → TypeTree → Prop}
    (hone : ∀ a, tree [a] = a) (hmore : ∀ a b l, tree (a :: b :: l) = node a (tree (b :: l)))
    (hnode : ∀ {a a' b b' : TypeTree}, Same a a' → Same b b' → Same (node a b) (node a' b'))
    (htree : ∀ {l l' : List TypeTree}, l ≠ [] → l' ≠ [] →
      Same (tree (l ++ l')) (node (tree l) (tree l')))
    {ts : List String} {δs : List TypeTree} (hne : ts ≠ [])
    (h : List.Forall₂ (fun t δ => ∃ τ, Joined operator tree part t.toList τ ∧ Same τ δ) ts δs) :
    ∃ τ, Joined operator tree part (joinWith (around operator) (ts.map String.toList)) τ ∧
      Same τ (tree δs) := by
  -- on the parts: each one is put in front of the rest with its operator
  induction h with
  | nil => exact absurd rfl hne
  | @cons t δ ts δs hhead htail ih =>
    obtain ⟨τ, hτ, hsame⟩ := hhead
    cases htail with
    | nil => exact ⟨τ, hτ, (hone δ).symm ▸ hsame⟩
    | @cons u ε us εs hu hus =>
      obtain ⟨υ, hυ, hsame'⟩ := ih (List.cons_ne_nil _ _)
      obtain ⟨ω, hω, hsame''⟩ := Joined.append htree hτ hυ
      refine ⟨ω, ?_, hsame''.trans ?_⟩
      · rw [List.map_cons, List.map_cons, joinWith, List.append_assoc]
        exact hω
      · rw [hmore]
        exact hnode hsame hsame'

/-- An operand of an intersection, which is put in parentheses if it is a proper union. -/
theorem operands_operand (h : Spelled text δ) :
    ∃ τ, Operands (operand text).toList τ ∧ Same τ δ := by
  obtain ⟨τ, hτ, hsame⟩ := h
  refine ⟨τ, ?_, hsame⟩
  unfold operand
  split
  next =>
    have htext : ("(" ++ text ++ ")").toList = '(' :: text.toList ++ [')'] := by simp
    rw [htext]
    exact hτ.parens.operands
  next hbar => exact hτ.operands (Bool.not_eq_true _ ▸ hbar)

theorem spelled_unknown : Spelled unknown (.atom unknown) :=
  spelled_word (by decide) (List.all_eq_true.1 (by decide))

theorem spelled_union {ts : List String} {δs : List TypeTree} (hne : ts ≠ [])
    (h : List.Forall₂ Spelled ts δs) : Spelled (joinStrings " | " ts) (unionOf δs) := by
  rw [Spelled, toList_joinStrings]
  exact joined_joinStrings (fun _ => rfl) (fun _ _ _ => rfl) Same.union Same.unionOf_append hne h

theorem spelled_inter {ts : List String} {δs : List TypeTree} (hne : ts ≠ [])
    (h : List.Forall₂ Spelled ts δs) :
    Spelled (joinStrings " & " (ts.map operand)) (interOf δs) := by
  have hoperands : List.Forall₂ (fun t δ => ∃ τ, Operands t.toList τ ∧ Same τ δ)
      (ts.map operand) δs :=
    List.forall₂_map_left_iff.2 (h.imp fun _ _ hs => operands_operand hs)
  obtain ⟨τ, hτ, hsame⟩ := joined_joinStrings (fun _ => rfl) (fun _ _ _ => rfl) Same.inter
    Same.interOf_append (fun e => hne (List.map_eq_nil_iff.1 e)) hoperands
  refine ⟨τ, ?_, hsame⟩
  rw [toList_joinStrings]
  exact Operands.alternatives hτ

/-- A composition of types is the union or the intersection of them. -/
theorem spelled_compose (mode : Composition) {ts : List String} {δs : List TypeTree}
    (h : List.Forall₂ Spelled ts δs) : Spelled (compose mode ts) (TypeTree.composed mode δs) := by
  cases h with
  | nil => exact spelled_unknown
  | cons hhead htail =>
    have hall := List.Forall₂.cons hhead htail
    cases mode with
    | allOf => exact spelled_inter (List.cons_ne_nil _ _) hall
    | oneOf => exact spelled_union (List.cons_ne_nil _ _) hall
    | anyOf => exact spelled_union (List.cons_ne_nil _ _) hall

/-! ## Admitting null -/

/-- A text that says null among its alternatives spells a type with null among its
alternatives. -/
theorem Alternatives.any_isNull {τ : TypeTree} (h : Alternatives text.toList τ)
    (hnull : hasNull text = true) : τ.normal.alternatives.any TypeTree.isNull = true := by
  obtain ⟨parts, -, hparts, -, rfl, hpieces⟩ := h.pieces
  rw [hasNull, List.any_eq_true] at hnull
  obtain ⟨piece, hpiece, htrim⟩ := hnull
  rw [decide_eq_true_eq] at htrim
  have hmem : "null".toList ∈ parts.map Prod.fst :=
    hpieces ▸ List.mem_map.2 ⟨piece, hpiece, htrim⟩
  obtain ⟨p, hp, hfst⟩ := List.mem_map.1 hmem
  -- what is written as null is read as null
  have hword : Operands p.1 TypeTree.null := by
    rw [hfst]
    exact (atomic_word (by decide) (List.all_eq_true.1 (by decide))).operands
  have hread := (hparts p hp).reads (ends_nil _) (Nat.le_refl _)
  rw [hword.reads (ends_nil _) (Nat.le_refl _)] at hread
  have htree : TypeTree.null = p.2 := (Prod.mk.inj (Option.some.inj hread)).1
  exact TypeTree.any_isNull_unionOf (List.mem_map.2 ⟨p, hp, htree.symm⟩)

/-- Null is added, unless it is among the alternatives already. -/
theorem Spelled.withNull (h : Spelled text δ) (n : Bool) :
    Spelled (withNull n text) (δ.orNull n) := by
  unfold TypeText.withNull
  cases n with
  | false => exact h
  | true =>
    obtain ⟨τ, hτ, hsame⟩ := h
    rw [Bool.not_true, Bool.false_or]
    split
    next hnull =>
      -- with null among the alternatives, one more changes nothing
      have hmore := Same.union_null (hτ.any_isNull hnull)
      exact ⟨τ, hτ, hmore.symm.trans (hsame.orNull true)⟩
    next =>
      have hword : Alternatives ['n', 'u', 'l', 'l'] TypeTree.null :=
        (atomic_word (List.cons_ne_nil _ _) (List.all_eq_true.1 (by decide))).operands.alternatives
      obtain ⟨ω, hω, hsame'⟩ := Joined.append Same.unionOf_append hτ hword
      refine ⟨ω, ?_, hsame'.trans (hsame.orNull true)⟩
      have htext : (text ++ " | null").toList =
          text.toList ++ (around '|' ++ ['n', 'u', 'l', 'l']) := by simp [around]
      rw [htext]
      exact hω

/-! ## Object types -/

/-- Written members are the text of an object type, if each of them has a name and a type. -/
theorem exists_members {ts : List String} {ms : List (String × Bool × TypeTree)}
    (h : List.Forall₂ (fun t m => ∃ type, Spelled type m.2.2 ∧
      t = member (Naming.propertyKey m.1) (!m.2.1) type) ts ms) :
    ∃ parts : List (List Char × String × Bool × TypeTree), (∀ p, p ∈ parts → Member p.1 p.2) ∧
      parts.map Prod.fst = ts.map String.toList ∧
      List.Forall₂ (fun m m' => m.1 = m'.1 ∧ m.2.1 = m'.2.1 ∧ Same m.2.2 m'.2.2)
        (parts.map Prod.snd) ms := by
  induction h with
  | nil => exact ⟨[], fun p hp => absurd hp List.not_mem_nil, rfl, .nil⟩
  | @cons t m ts ms hhead _ ih =>
    obtain ⟨type, ⟨τ, hτ, hsame⟩, rfl⟩ := hhead
    obtain ⟨name, optional, δ⟩ := m
    obtain ⟨parts, hparts, htexts, hmembers⟩ := ih
    have htext : (member (Naming.propertyKey name) (!optional) type).toList =
        memberText (Naming.propertyKey name).toList optional type.toList := by
      cases optional with
      | true => simp [member, memberText]
      | false => simp [member, memberText]
    refine ⟨(memberText (Naming.propertyKey name).toList optional type.toList, name, optional, τ) ::
      parts, fun p hp => ?_, ?_, .cons ⟨rfl, rfl, hsame⟩ hmembers⟩
    · rcases List.mem_cons.1 hp with rfl | hp
      · exact ⟨_, _, keyed_propertyKey name, hτ, rfl⟩
      · exact hparts p hp
    · rw [List.map_cons, List.map_cons, htexts, htext]

theorem spelled_braced {ts : List String} {ms : List (String × Bool × TypeTree)} (hne : ts ≠ [])
    (h : List.Forall₂ (fun t m => ∃ type, Spelled type m.2.2 ∧
      t = member (Naming.propertyKey m.1) (!m.2.1) type) ts ms) :
    Spelled (braced ts) (.object ms) := by
  obtain ⟨parts, hparts, htexts, hmembers⟩ := exists_members h
  refine Spelled.congr ?_ (Same.object hmembers)
  have hne' : parts ≠ [] := by
    rintro rfl
    exact hne (List.map_eq_nil_iff.1 htexts.symm)
  refine spelled_of_atomic (atomic_object hne' hparts) ?_
  rw [htexts]
  simp [braced, toList_joinStrings, semicolon]

/-- The object type without members. -/
theorem spelled_empty : Spelled "\x7b\x7d" (.object []) :=
  spelled_of_atomic atomic_empty (by decide)

end TypedClients.TypeText
