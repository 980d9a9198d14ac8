import TypedClients.Proofs.TypeText.Tree

/-!
# What is written in a type

Below its operators a type consists of *tokens*: atoms, the mark of a dictionary, and the keys
of object types. Flattening a type or repeating null in it changes none of them, so whatever
is said about a type in terms of its tokens holds of every type that is the same.

* `mem_tokens_unionOf`, `mem_tokens_interOf`: the tokens of compositions.
* `Same.mem_tokens`: the same types have the same tokens.
-/

namespace TypedClients.TypeTree

/-- A part of a type that no operator is in. -/
inductive Token
  /-- An atom, as it is written. -/
  | atom (text : String)
  /-- What the type of a dictionary begins with. -/
  | record
  /-- The key of a member of an object type. -/
  | key (name : String)
  deriving DecidableEq

mutual

/-- The tokens of a type, in order. -/
def tokens : TypeTree → List Token
  | atom text => [.atom text]
  | array item => item.tokens
  | record value => .record :: value.tokens
  | object members => tokensOfMembers members
  | union a b => a.tokens ++ b.tokens
  | inter a b => a.tokens ++ b.tokens

/-- The tokens of members, in order. -/
def tokensOfMembers : List (String × Bool × TypeTree) → List Token
  | [] => []
  | (name, _, t) :: rest => .key name :: (t.tokens ++ tokensOfMembers rest)

end

variable {k : Token}

theorem mem_tokens_unionOf {l : List TypeTree} (h : l ≠ []) :
    k ∈ (unionOf l).tokens ↔ ∃ t, t ∈ l ∧ k ∈ t.tokens := by
  induction l using unionOf.induct with
  | case1 => exact absurd rfl h
  | case2 a => simp [unionOf]
  | case3 a b rest ih =>
    rw [unionOf_cons_cons, tokens, List.mem_append, ih (List.cons_ne_nil _ _)]
    simp only [List.mem_cons, exists_eq_or_imp]

theorem mem_tokens_interOf {l : List TypeTree} (h : l ≠ []) :
    k ∈ (interOf l).tokens ↔ ∃ t, t ∈ l ∧ k ∈ t.tokens := by
  induction l using interOf.induct with
  | case1 => exact absurd rfl h
  | case2 a => simp [interOf]
  | case3 a b rest ih =>
    rw [interOf_cons_cons, tokens, List.mem_append, ih (List.cons_ne_nil _ _)]
    simp only [List.mem_cons, exists_eq_or_imp]

theorem mem_tokens_alternatives (t : TypeTree) :
    (∃ s, s ∈ t.alternatives ∧ k ∈ s.tokens) ↔ k ∈ t.tokens := by
  induction t using alternatives.induct with
  | case1 a b iha ihb =>
    rw [alternatives_union, tokens, List.mem_append, ← iha, ← ihb]
    simp only [List.mem_append, or_and_right, exists_or]
  | case2 t hne =>
    rw [alternatives]
    · simp
    · exact hne

theorem mem_tokens_operands (t : TypeTree) :
    (∃ s, s ∈ t.operands ∧ k ∈ s.tokens) ↔ k ∈ t.tokens := by
  induction t using operands.induct with
  | case1 a b iha ihb =>
    rw [operands_inter, tokens, List.mem_append, ← iha, ← ihb]
    simp only [List.mem_append, or_and_right, exists_or]
  | case2 t hne =>
    rw [operands]
    · simp
    · exact hne

theorem eq_null_of_isNull {t : TypeTree} (h : t.isNull = true) : t = null := by
  cases t with
  | atom text => rw [null, of_decide_eq_true h]
  | _ => cases h

/-- A repeated null has no token of its own. -/
theorem mem_tokens_nullOnce (l : List TypeTree) :
    (∃ s, s ∈ nullOnce l ∧ k ∈ s.tokens) ↔ ∃ s, s ∈ l ∧ k ∈ s.tokens := by
  constructor
  · rintro ⟨s, hs, hk⟩
    exact ⟨s, mem_of_mem_nullOnce hs, hk⟩
  · rintro ⟨s, hs, hk⟩
    induction l with
    | nil => exact absurd hs List.not_mem_nil
    | cons a rest ih =>
      rw [nullOnce_cons]
      rcases List.mem_cons.1 hs with rfl | hs
      · split
        · exact ⟨s, List.mem_cons_self, hk⟩
        · exact ⟨s, List.mem_cons_self, hk⟩
      · split
        next ha =>
          -- what is dropped is another null, which the first one stands for
          by_cases hnull : s.isNull = true
          · rw [eq_null_of_isNull hnull, ← eq_null_of_isNull ha] at hk
            exact ⟨a, List.mem_cons_self, hk⟩
          · refine ⟨s, List.mem_cons_of_mem _ (List.mem_filter.2 ⟨hs, ?_⟩), hk⟩
            rw [Bool.eq_false_iff.2 hnull, Bool.not_false]
        next =>
          obtain ⟨s', hs', hk'⟩ := ih hs
          exact ⟨s', List.mem_cons_of_mem _ hs', hk'⟩

mutual

/-- Flattening a type keeps its tokens. -/
theorem mem_tokens_normal : ∀ t : TypeTree, k ∈ t.normal.tokens ↔ k ∈ t.tokens
  | atom _ => Iff.rfl
  | array item => mem_tokens_normal item
  | record value => by
    rw [normal_record, tokens, tokens, List.mem_cons, List.mem_cons, mem_tokens_normal value]
  | object members => mem_tokensOfMembers_normal members
  | union a b => by
    have hne : nullOnce (a.normal.alternatives ++ b.normal.alternatives) ≠ [] :=
      nullOnce_ne_nil fun h => alternatives_ne_nil _ (List.append_eq_nil_iff.1 h).1
    rw [normal_union, mem_tokens_unionOf hne, mem_tokens_nullOnce, tokens, List.mem_append,
      ← mem_tokens_normal a, ← mem_tokens_normal b, ← mem_tokens_alternatives a.normal,
      ← mem_tokens_alternatives b.normal]
    simp only [List.mem_append, or_and_right, exists_or]
  | inter a b => by
    have hne : a.normal.operands ++ b.normal.operands ≠ [] :=
      fun h => operands_ne_nil _ (List.append_eq_nil_iff.1 h).1
    rw [normal_inter, mem_tokens_interOf hne, tokens, List.mem_append, ← mem_tokens_normal a,
      ← mem_tokens_normal b, ← mem_tokens_operands a.normal, ← mem_tokens_operands b.normal]
    simp only [List.mem_append, or_and_right, exists_or]

theorem mem_tokensOfMembers_normal : ∀ ms : List (String × Bool × TypeTree),
    k ∈ tokensOfMembers (normalMembers ms) ↔ k ∈ tokensOfMembers ms
  | [] => Iff.rfl
  | (_, _, t) :: rest => by
    rw [normalMembers, tokensOfMembers, tokensOfMembers, List.mem_cons, List.mem_cons,
      List.mem_append, List.mem_append, mem_tokens_normal t, mem_tokensOfMembers_normal rest]

end

/-- The same types have the same tokens. -/
theorem Same.mem_tokens {s t : TypeTree} (h : Same s t) : k ∈ s.tokens ↔ k ∈ t.tokens := by
  rw [← mem_tokens_normal s, h, mem_tokens_normal t]

end TypedClients.TypeTree
