import Mathlib.Data.List.Induction
import TypedClients.Proofs.Files.Places
import TypedClients.Proofs.Files.Reading

/-!
# Removing a folder

A folder is removed step by step: it is looked into, then what it holds is removed, and the
folder itself last of all. The system may not allow one of the steps. Then the removal ends
with this step, and those before it are not taken back.

* `exists_removals`: the last step removes the folder itself, those before it remove what is
  below it.
* `get?_afterAll`: what is at or below the places that some steps remove is gone, and all else
  is as it was.
* `outcome_removeAll`: the folder is gone with all that is below it, or it is left halfway.
-/

namespace TypedClients.Files

/-- The places that some steps remove. -/
def removedBy (steps : List Removal) : List Place :=
  steps.filterMap fun
    | .lookInto _ => none
    | .remove place => some place

/-- A tree after some steps of a removal. -/
def Tree.afterAll (t : Tree) (steps : List Removal) : Tree := steps.foldl Tree.after t

variable {t : Tree} {place q : Place} {steps : List Removal}

theorem mem_removedBy : q ∈ removedBy steps ↔ .remove q ∈ steps := by
  rw [removedBy, List.mem_filterMap]
  constructor
  · rintro ⟨step, hstep, hq⟩
    cases step with
    | lookInto folder => cases hq
    | remove place =>
      cases hq
      exact hstep
  · exact fun h => ⟨_, h, rfl⟩

namespace Tree

theorem exists_removalsFrom (t : Tree) (levels : Nat) (place : Place) :
    ∃ steps, t.removalsFrom levels place = steps ++ [.remove place] ∧
      ∀ q, q ∈ removedBy steps → place <+: q ∧ q ≠ place := by
  induction levels generalizing place with
  | zero => exact ⟨[], rfl, fun q hq => absurd hq List.not_mem_nil⟩
  | succ levels ih =>
    rw [removalsFrom]
    split
    · refine ⟨_, rfl, fun q hq => ?_⟩
      rw [mem_removedBy, List.mem_cons, List.mem_flatMap] at hq
      rcases hq with hlook | ⟨name, -, hq⟩
      · cases hlook
      -- what is removed for a name is at or below the place that has it
      have hinside : place ++ [name] <+: q := by
        obtain ⟨steps, hsteps, hbelow⟩ := ih (place ++ [name])
        rw [hsteps, List.mem_append, List.mem_singleton] at hq
        rcases hq with hq | hlast
        · exact (hbelow q (mem_removedBy.2 hq)).1
        · cases hlast
          exact List.prefix_refl _
      refine ⟨(List.prefix_append _ _).trans hinside, ?_⟩
      rintro rfl
      have hlength := hinside.length_le
      rw [List.length_append] at hlength
      exact absurd hlength (Nat.not_succ_le_self _)
    · exact ⟨[], rfl, fun q hq => absurd hq List.not_mem_nil⟩

/-- The last step removes what is at the place itself, those before it remove what is below. -/
theorem exists_removals (t : Tree) (place : Place) :
    ∃ steps, t.removals place = steps ++ [.remove place] ∧
      ∀ q, q ∈ removedBy steps → place <+: q ∧ q ≠ place :=
  t.exists_removalsFrom t.height place

/-- What a folder holds is there. -/
theorem get?_ne_none_of_mem_names {name : String} (h : name ∈ t.names place) :
    t.get? (place ++ [name]) ≠ none := by
  obtain ⟨e, he, hname⟩ := List.mem_filterMap.1 h
  obtain ⟨hentry, hplace⟩ := List.mem_filter.1 he
  obtain ⟨front, hsplit⟩ := List.getLast?_eq_some_iff.1 hname
  obtain rfl : front = place := by
    rw [← of_decide_eq_true hplace, hsplit, List.dropLast_concat]
  rw [get?, if_neg (List.append_ne_nil_of_right_ne_nil _ (List.cons_ne_nil _ _))]
  intro hnone
  have hdiffers := List.lookup_eq_none_iff.1 hnone e hentry
  rw [hsplit, bne_self_eq_false] at hdiffers
  cases hdiffers

/-- What a removal removes below its place is there. -/
theorem there_of_removalsFrom {levels : Nat} (hq : q ∈ removedBy (t.removalsFrom levels place)) :
    q = place ∨ t.get? q ≠ none := by
  induction levels generalizing place with
  | zero =>
    cases List.mem_singleton.1 (mem_removedBy.1 hq)
    exact Or.inl rfl
  | succ levels ih =>
    rw [mem_removedBy, removalsFrom] at hq
    split at hq
    · rcases List.mem_append.1 hq with hq | hlast
      · rcases List.mem_cons.1 hq with hlook | hq
        · cases hlook
        obtain ⟨name, hname, hq⟩ := List.mem_flatMap.1 hq
        rcases ih (mem_removedBy.2 hq) with rfl | hthere
        · exact Or.inr (get?_ne_none_of_mem_names hname)
        · exact Or.inr hthere
      · cases List.mem_singleton.1 hlast
        exact Or.inl rfl
    · cases List.mem_singleton.1 hq
      exact Or.inl rfl

/-- What is at or below the removed places is gone, and all else is as it was. -/
theorem get?_afterAll (hroot : [] ∉ removedBy steps) (q : Place) :
    (t.afterAll steps).get? q =
      if (removedBy steps).any (·.isPrefixOf q) then none else t.get? q := by
  by_cases hq : q = []
  · have hkept : (removedBy steps).any (·.isPrefixOf q) = false := by
      rw [List.any_eq_false, hq]
      intro place hplace hpre
      rw [List.prefix_nil.1 (List.isPrefixOf_iff_prefix.1 hpre)] at hplace
      exact hroot hplace
    rw [hkept, if_neg Bool.false_ne_true, hq, get?_nil, get?_nil]
  · clear hroot
    induction steps generalizing t with
    | nil => rfl
    | cons step steps ih =>
      rw [afterAll, List.foldl_cons]
      refine (ih (t := t.after step)).trans ?_
      cases step with
      | lookInto folder => rfl
      | remove place =>
        have hcons : removedBy (.remove place :: steps) = place :: removedBy steps := rfl
        rw [hcons, List.any_cons, after, get?_removeBelow _ hq]
        by_cases hlater : (removedBy steps).any (·.isPrefixOf q) = true
        · rw [if_pos hlater, if_pos]
          rw [hlater, Bool.or_true]
        · rw [if_neg hlater, Bool.eq_false_iff.2 hlater, Bool.or_false]

/-- What is below a place may be removed before the place itself is. -/
theorem removeBelow_removeBelow (h : place <+: q) :
    (t.removeBelow q).removeBelow place = t.removeBelow place := by
  rw [removeBelow, removeBelow, removeBelow, List.filter_filter]
  refine congrArg Tree.mk (List.filter_congr fun e _ => ?_)
  cases hq : q.isPrefixOf e.1 with
  | false => rw [Bool.not_false, Bool.and_true]
  | true =>
    have hplace : place.isPrefixOf e.1 = true :=
      List.isPrefixOf_iff_prefix.2 (h.trans (List.isPrefixOf_iff_prefix.1 hq))
    rw [hplace]
    rfl

/-- All steps together remove what is at the place and below it. -/
theorem afterAll_removals (t : Tree) (place : Place) :
    t.afterAll (t.removals place) = t.removeBelow place := by
  obtain ⟨steps, hsteps, hbelow⟩ := t.exists_removals place
  rw [hsteps, afterAll, List.foldl_append]
  change (t.afterAll steps).removeBelow place = t.removeBelow place
  clear hsteps
  induction steps using List.reverseRecOn with
  | nil => rfl
  | append_singleton steps step ih =>
    have hsteps : ∀ q, q ∈ removedBy steps → place <+: q ∧ q ≠ place := fun q hq =>
      hbelow q (mem_removedBy.2 (List.mem_append_left _ (mem_removedBy.1 hq)))
    rw [afterAll, List.foldl_append]
    cases step with
    | lookInto folder => exact ih hsteps
    | remove q =>
      have hq := hbelow q (mem_removedBy.2 (List.mem_append_right _ (List.mem_singleton.2 rfl)))
      exact (removeBelow_removeBelow hq.1).trans (ih hsteps)

end Tree

/-- A removal that has been left halfway: some of what is below the place is gone, as the
steps up to one that was not allowed remove it. -/
structure Halfway (w : Workspace) (place : Place) (gone : List Place) (f : Failure)
    (w' : Workspace) :
    Prop where
  /-- The failure is that of the first step that the system does not allow. -/
  stopped : ∃ done step more problem, w.tree.removals place = done ++ step :: more ∧
    (∀ s, s ∈ done → w.refusals.lookup s = none) ∧ w.refusals.lookup step = some problem ∧
    f = .system ⟨problem, step.told place⟩ ∧ gone = removedBy done ∧ w'.tree = w.tree.afterAll done
  /-- Only the tree changes. -/
  rest : w' = { w with tree := w'.tree }
  /-- The place itself is not gone. -/
  below : ∀ q, q ∈ gone → place <+: q ∧ q ≠ place
  /-- What is gone was there. -/
  there : ∀ q, q ∈ gone → w.tree.get? q ≠ none
  left : ∀ q, w'.tree.get? q = if gone.any (·.isPrefixOf q) then none else w.tree.get? q

namespace Session

variable {w w' : Workspace} {whole : Place} {r : Except Failure Unit}

/-- The steps of a removal are taken up to the first one that is not allowed. -/
theorem outcome_takeRemovals (h : (takeRemovals whole steps).outcome w = (r, w')) :
    ∃ done rest, steps = done ++ rest ∧ w' = { w with tree := w.tree.afterAll done } ∧
      (∀ step, step ∈ done → w.refusals.lookup step = none) ∧
      (rest = [] ∧ r = .ok () ∨ ∃ step more problem, rest = step :: more ∧
        w.refusals.lookup step = some problem ∧
        r = .error (.system ⟨problem, step.told whole⟩)) := by
  induction steps generalizing w with
  | nil =>
    cases h
    exact ⟨[], [], rfl, rfl, fun step hstep => absurd hstep List.not_mem_nil, Or.inl ⟨rfl, rfl⟩⟩
  | cons step steps ih =>
    rcases reads_surroundings.bind_cases h with ⟨_, he, -⟩ | ⟨v, hv, h⟩
    · cases he
    cases hv
    split at h
    next problem hproblem =>
      cases h
      exact ⟨[], step :: steps, rfl, rfl, fun s hs => absurd hs List.not_mem_nil,
        Or.inr ⟨step, steps, problem, rfl, hproblem, rfl⟩⟩
    next hallowed =>
      rcases outcome_bind_cases h with ⟨_, he, -⟩ | ⟨_, v, hset, h⟩
      · cases he
      cases hset
      obtain ⟨done, rest, rfl, rfl, hdone, hend⟩ := ih h
      refine ⟨step :: done, rest, rfl, rfl, fun s hs => ?_, hend⟩
      rcases List.mem_cons.1 hs with rfl | hs
      · exact hallowed
      · exact hdone s hs

/-- A folder is removed with all that is in it if the system allows all steps, and else is
left halfway. -/
theorem outcome_removeAll (h : (removeAll place).outcome w = (r, w')) :
    (r = .ok () ∧ (∀ step, step ∈ w.tree.removals place → w.refusals.lookup step = none) ∧
        w' = { w with tree := w.tree.removeBelow place }) ∨
      ∃ f gone, r = .error f ∧ Halfway w place gone f w' := by
  rcases reads_surroundings.bind_cases h with ⟨_, he, -⟩ | ⟨v, hv, h⟩
  · cases he
  cases hv
  obtain ⟨done, rest, hsplit, rfl, hdone, ⟨rfl, rfl⟩ | ⟨step, more, problem, rfl, hproblem, rfl⟩⟩ :=
    outcome_takeRemovals h
  · rw [List.append_nil] at hsplit
    subst hsplit
    exact Or.inl ⟨rfl, hdone, by rw [Tree.afterAll_removals]⟩
  · obtain ⟨steps, hsteps, hbelow⟩ := w.tree.exists_removals place
    have hgone : ∀ q, q ∈ removedBy done → place <+: q ∧ q ≠ place := by
      intro q hq
      obtain ⟨later, hlater⟩ : done <+: steps := by
        have hall : steps <+: done ++ step :: more := by
          rw [← hsplit, hsteps]
          exact List.prefix_append _ _
        have hlength := congrArg List.length (hsteps.symm.trans hsplit)
        simp only [List.length_append, List.length_cons, List.length_nil] at hlength
        exact List.prefix_of_prefix_length_le (List.prefix_append _ _) hall (by omega)
      exact hbelow q (mem_removedBy.2 (hlater ▸ List.mem_append_left _ (mem_removedBy.1 hq)))
    have hthere : ∀ q, q ∈ removedBy done → w.tree.get? q ≠ none := by
      intro q hq
      have hall : q ∈ removedBy (w.tree.removals place) :=
        mem_removedBy.2 (hsplit ▸ List.mem_append_left _ (mem_removedBy.1 hq))
      exact (Tree.there_of_removalsFrom hall).resolve_left (hgone q hq).2
    refine Or.inr ⟨_, removedBy done, rfl, ⟨done, step, more, problem, hsplit, hdone, hproblem,
      rfl, rfl, rfl⟩, rfl, hgone, hthere, Tree.get?_afterAll fun hroot => ?_⟩
    obtain ⟨hnil, hne⟩ := hgone [] hroot
    exact hne (List.prefix_nil.1 hnil).symm

-- The second file may not be removed, so the folder is left with it.
example :
    let t : Tree := ⟨[(["a"], .folder), (["a", "x"], .file []), (["a", "y"], .file [])]⟩
    let w : Workspace :=
      ⟨t, [], [], none, "Linux", "", [], [(.remove ["a", "y"], .notAllowed)], 0⟩
    ((removeAll ["a"]).outcome w).2.tree.entries = [(["a"], .folder), (["a", "y"], .file [])] := by
  decide

end Session

end TypedClients.Files
