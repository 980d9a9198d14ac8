import Mathlib.Data.List.Perm.Subperm
import TypedClients.Naming.Suffix

/-!
# The search for a free name ends at the first one

`Naming.firstCandidate` looks only at finitely many numbers. Whatever refuses a name can refuse
only finitely many of them, and the tries are pairwise distinct, so a bound as large as the list
of refused names is never reached: the search returns the first try that is accepted, among *all*
numbers.

* `exists_candidate_not_mem`: some try with a number up to the length of a list is not in it.
* `isFirst_firstCandidate`: the search returns the first accepted try.
* `IsFirst.unique`: there is only one first try.
-/

namespace TypedClients.Naming

/-- A text is the first of `name`, `name1`, `name2`, … that is acceptable. -/
def IsFirst (ok : String → Prop) (name result : String) : Prop :=
  ∃ n, result = candidate name n ∧ ok result ∧ ∀ m, m < n → ¬ ok (candidate name m)

theorem IsFirst.accepted {ok : String → Prop} {name r : String} (h : IsFirst ok name r) : ok r := by
  obtain ⟨_, -, hr, -⟩ := h
  exact hr

/-- Two first tries under the same condition are the same. -/
theorem IsFirst.unique {ok : String → Prop} {name r s : String}
    (hr : IsFirst ok name r) (hs : IsFirst ok name s) : r = s := by
  obtain ⟨m, rfl, hm, hm'⟩ := hr
  obtain ⟨n, rfl, hn, hn'⟩ := hs
  rcases Nat.lt_trichotomy m n with h | h | h
  · exact absurd hm (hn' m h)
  · rw [h]
  · exact absurd hn (hm' n h)

/-- A first try stays the first one if it stays acceptable and no refused one becomes so. -/
theorem IsFirst.mono {ok ok' : String → Prop} {name r : String} (h : IsFirst ok name r)
    (hr : ok' r) (hno : ∀ c, ok' c → ok c) : IsFirst ok' name r := by
  obtain ⟨n, hn, -, hlt⟩ := h
  exact ⟨n, hn, hr, fun m hm hok => hlt m hm (hno _ hok)⟩

/-- The tries with numbers up to the length of a list cannot all be in the list. -/
theorem exists_candidate_not_mem (name : String) (taken : List String) :
    ∃ n, n ≤ taken.length ∧ candidate name n ∉ taken := by
  refine Classical.byContradiction fun hall => ?_
  have hnodup : ((List.range (taken.length + 1)).map (candidate name)).Nodup :=
    List.pairwise_map.2 (List.nodup_range.imp fun hne e => hne (candidate_injective name e))
  have hsub : (List.range (taken.length + 1)).map (candidate name) ⊆ taken := by
    intro c hc
    obtain ⟨n, hn, rfl⟩ := List.mem_map.1 hc
    have hle := Nat.le_of_lt_succ (List.mem_range.1 hn)
    exact Classical.byContradiction fun hfree => hall ⟨n, hle, hfree⟩
  -- one try too many for the list
  have hlen := (List.subperm_of_subset hnodup hsub).length_le
  rw [List.length_map, List.length_range] at hlen
  omega

/-- A search within a bound returns the first accepted try within the bound, if there is one. -/
theorem isFirst_of_accepts {accepts : String → Bool} {name : String} {bound n : Nat}
    (hn : n ≤ bound) (h : accepts (candidate name n) = true) :
    IsFirst (accepts · = true) name (firstCandidate accepts name bound) := by
  unfold firstCandidate
  cases hf : ((List.range (bound + 1)).map (candidate name)).find? accepts with
  | none =>
    refine absurd h (List.find?_eq_none.1 hf _ ?_)
    exact List.mem_map.2 ⟨n, List.mem_range.2 (Nat.lt_succ_of_le hn), rfl⟩
  | some c =>
    obtain ⟨hc, i, hi, rfl, hbefore⟩ := List.find?_eq_some_iff_getElem.1 hf
    simp only [List.length_map, List.length_range] at hi
    simp only [List.getElem_map, List.getElem_range] at hc hbefore ⊢
    refine ⟨i, rfl, hc, fun m hm => ?_⟩
    simpa using hbefore m hm

/-- If only the names of a list can be refused, and the bound is not below its length, the search
returns the first accepted try. -/
theorem isFirst_firstCandidate {accepts : String → Bool} {name : String} {bound : Nat}
    {taken : List String} (hb : taken.length ≤ bound)
    (h : ∀ c, c ∉ taken → accepts c = true) :
    IsFirst (accepts · = true) name (firstCandidate accepts name bound) := by
  obtain ⟨n, hn, hfree⟩ := exists_candidate_not_mem name taken
  exact isFirst_of_accepts (Nat.le_trans hn hb) (h _ hfree)

end TypedClients.Naming
