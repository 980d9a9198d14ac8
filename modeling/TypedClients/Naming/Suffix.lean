import TypedClients.Number.Digits

/-!
# Numbered names

A name that is not free is tried again with `1`, `2`, `3`, … behind it. How many tries can fail is
bounded by how many names are taken, so the search is a search in a finite list.

* `candidate_injective`: the tries are pairwise distinct.

Mirrors `TypeTable.add`. The loops of `TypeTable.add` and of `_unique` that count up until a
name is free are one search, whose bound is a proof that it ends.
-/

namespace TypedClients.Naming

/-- The try with a number: the name itself, then the name with `1`, `2`, … behind it. -/
def candidate (name : String) : Nat → String
  | 0 => name
  | n + 1 => name ++ Number.natText (n + 1)

/-- The first acceptable try, with numbers up to a bound (the counting loop of
`TypeTable.add`). -/
def firstCandidate (accepts : String → Bool) (name : String) (bound : Nat) : String :=
  (((List.range (bound + 1)).map (candidate name)).find? accepts).getD name

theorem digits_ne_nil (n : Nat) : Number.digits n ≠ [] := by
  unfold Number.digits
  split <;> simp

theorem candidate_injective (name : String) {m n : Nat} (h : candidate name m = candidate name n) :
    m = n := by
  have key : ∀ k, (candidate name k).toList =
      name.toList ++ (if k = 0 then [] else Number.digits k) := by
    intro k
    cases k <;> simp [candidate, Number.natText]
  have h' := congrArg String.toList h
  rw [key, key] at h'
  have h'' := List.append_cancel_left h'
  by_cases hm : m = 0 <;> by_cases hn : n = 0
  · rw [hm, hn]
  · simp only [hm, hn, if_true, if_false] at h''
    exact absurd h''.symm (digits_ne_nil n)
  · simp only [hm, hn, if_true, if_false] at h''
    exact absurd h'' (digits_ne_nil m)
  · simp only [hm, hn, if_false] at h''
    exact Number.digits_injective h''

end TypedClients.Naming
