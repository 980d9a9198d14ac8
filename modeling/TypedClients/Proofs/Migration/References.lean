import Mathlib.Data.List.Find
import TypedClients.Generation
import TypedClients.Proofs.Schema.References
import TypedClients.Proofs.TypeText.OuterReferences

/-!
# Schemas whose references are moved

The two families keep their definitions in different places. A document of the older family
becomes one of the newer family when, among other things, each reference to the old place is
made one to the new place. What a schema is written as does not change thereby, since a
reference is written by its last segment, and neither does what a reference leads to.

* `Schema.render_moved`, `Schema.depth_moved`: a schema is written as before, and is as deep
  as before.
* `SchemaIndex.lookup?_moved`: a reference leads to what it led to before.
* `Schema.outcome_renderFollowing_moved`: following references writes the same text.
-/

namespace TypedClients

open Schema (refName)

/-! ## References -/

namespace Migration

/-- Where the older family keeps its definitions. -/
def oldPlace : String := Family.swagger2.schemaPrefix

/-- Where the newer family keeps its definitions. -/
def newPlace : String := Family.openapi3.schemaPrefix

/-- A reference with the old place of definitions, if it names that, replaced by the new one. -/
def moved (ref : String) : String :=
  if oldPlace.toList.isPrefixOf ref.toList then
    newPlace ++ String.ofList (ref.toList.drop oldPlace.toList.length)
  else ref

/-- A reference does not name the new place of definitions already. -/
def Movable (ref : String) : Prop := ¬newPlace.toList <+: ref.toList

/-- A name does not look like a pointer into the document. -/
def Plain (name : String) : Prop := ¬['#', '/'] <+: name.toList

instance (ref : String) : Decidable (Movable ref) := inferInstanceAs (Decidable (¬_))

instance (name : String) : Decidable (Plain name) := inferInstanceAs (Decidable (¬_))

theorem moved_cases (ref : String) :
    (∃ name, ref = oldPlace ++ name ∧ moved ref = newPlace ++ name) ∨
      ¬oldPlace.toList <+: ref.toList ∧ moved ref = ref := by
  by_cases h : oldPlace.toList <+: ref.toList
  · obtain ⟨rest, hrest⟩ := h
    refine Or.inl ⟨String.ofList rest, ?_, ?_⟩
    · rw [← String.toList_inj, String.toList_append, String.toList_ofList, hrest]
    · rw [moved, if_pos (List.isPrefixOf_iff_prefix.2 ⟨rest, hrest⟩), ← hrest, List.drop_left]
  · exact Or.inr ⟨h, if_neg fun hp => h (List.isPrefixOf_iff_prefix.1 hp)⟩

theorem moved_of_plain {name : String} (h : Plain name) : moved name = name ∧ Movable name := by
  have hold : (['#', '/'] : List Char) <+: oldPlace.toList := by decide
  have hnew : (['#', '/'] : List Char) <+: newPlace.toList := by decide
  refine ⟨?_, fun hp => h (hnew.trans hp)⟩
  exact if_neg fun hp => h (hold.trans (List.isPrefixOf_iff_prefix.1 hp))

/-- Different references are still different when they are moved. -/
theorem moved_injective {a b : String} (ha : Movable a) (hb : Movable b) (h : moved a = moved b) :
    a = b := by
  have hnew : ∀ name ref, ref = newPlace ++ name → ¬Movable ref := by
    rintro name ref rfl hmovable
    exact hmovable ⟨name.toList, (String.toList_append).symm⟩
  rcases moved_cases a with ⟨n, rfl, hn⟩ | ⟨-, hn⟩
  · rcases moved_cases b with ⟨m, rfl, hm⟩ | ⟨-, hm⟩
    · rw [hn, hm, ← String.toList_inj, String.toList_append, String.toList_append] at h
      rw [String.toList_inj.1 (List.append_cancel_left h)]
    · exact absurd hb (hnew n b (hm.symm.trans (h.symm.trans hn)))
  · rcases moved_cases b with ⟨m, rfl, hm⟩ | ⟨-, hm⟩
    · exact absurd ha (hnew m a (hn.symm.trans (h.trans hm)))
    · rw [← hn, h, hm]

end Migration

namespace Schema

open Migration (moved Movable Plain newPlace oldPlace)

theorem refName_moved (ref : String) : refName (moved ref) = refName ref := by
  have hold : oldPlace = "#/definitions" ++ "/" := rfl
  have hnew : newPlace = "#/components/schemas" ++ "/" := rfl
  rcases Migration.moved_cases ref with ⟨name, rfl, h⟩ | ⟨-, h⟩
  · rw [h, hold, hnew, refName_append, refName_append]
  · rw [h]

theorem plain_refName (ref : String) : Plain (refName ref) := by
  rintro ⟨rest, hrest⟩
  refine not_mem_refName ref ?_
  rw [← hrest]
  exact List.mem_append_left _ (by decide)

/-! ## Schemas -/

mutual

/-- A schema with its references moved. -/
def moved : Schema → Schema
  | primitive type format values n => primitive type format values n
  | array items n => array items.moved n
  | object properties required none n => object (movedProperties properties) required none n
  | object properties required (some s) n =>
    object (movedProperties properties) required (some s.moved) n
  | dictionary required none n => dictionary required none n
  | dictionary required (some s) n => dictionary required (some s.moved) n
  | composite mode members n => composite mode (movedMembers members) n
  | reference ref n => reference (Migration.moved ref) n

/-- Schemas with their references moved. -/
def movedMembers : List Schema → List Schema
  | [] => []
  | m :: ms => m.moved :: movedMembers ms

/-- Properties with their references moved. -/
def movedProperties : List (String × Schema) → List (String × Schema)
  | [] => []
  | (name, p) :: ps => (name, p.moved) :: movedProperties ps

end

variable {names : Ordered String}

mutual

/-- A schema is written as before. -/
theorem render_moved : ∀ s : Schema, s.moved.render names = s.render names
  | primitive _ _ _ _ => rfl
  | array items _ => by
    rw [moved, render, render, render_moved items]
  | object [] _ none _ => rfl
  | object [] _ (some _) _ => rfl
  | object (p :: ps) required none _ => by
    rw [moved, movedProperties, render, render, ← movedProperties, renderProperties_moved]
  | object (p :: ps) required (some _) _ => by
    rw [moved, movedProperties, render, render, ← movedProperties, renderProperties_moved]
  | dictionary _ none _ => rfl
  | dictionary _ (some s) _ => by
    rw [moved, render, render, render_moved s]
  | composite _ members _ => by
    rw [moved, render, render, renderMembers_moved members]
  | reference ref _ => by
    rw [moved, render, render, referenceName, referenceName, refName_moved]

theorem renderMembers_moved : ∀ ms : List Schema,
    renderMembers names (movedMembers ms) = renderMembers names ms
  | [] => rfl
  | m :: ms => by
    rw [movedMembers, renderMembers, renderMembers, render_moved m, renderMembers_moved ms]

theorem renderProperties_moved (required : List String) : ∀ ps : List (String × Schema),
    renderProperties names required (movedProperties ps) = renderProperties names required ps
  | [] => rfl
  | (_, p) :: ps => by
    rw [movedProperties, renderProperties, renderProperties, render_moved p,
      renderProperties_moved required ps]

end

mutual

theorem depth_moved : ∀ s : Schema, s.moved.depth = s.depth
  | primitive _ _ _ _ => rfl
  | array items _ => by rw [moved, depth, depth, depth_moved items]
  | object properties _ none _ => by
    rw [moved, depth, depth, depthOfProperties_moved properties]
  | object properties _ (some s) _ => by
    rw [moved, depth, depth, depthOfProperties_moved properties, depth_moved s]
  | dictionary _ none _ => rfl
  | dictionary _ (some s) _ => by rw [moved, depth, depth, depth_moved s]
  | composite _ members _ => by rw [moved, depth, depth, depthOfMembers_moved members]
  | reference _ _ => rfl

theorem depthOfMembers_moved : ∀ ms : List Schema,
    depthOfMembers (movedMembers ms) = depthOfMembers ms
  | [] => rfl
  | m :: ms => by
    rw [movedMembers, depthOfMembers, depthOfMembers, depth_moved m, depthOfMembers_moved ms]

theorem depthOfProperties_moved : ∀ ps : List (String × Schema),
    depthOfProperties (movedProperties ps) = depthOfProperties ps
  | [] => rfl
  | (_, p) :: ps => by
    rw [movedProperties, depthOfProperties, depthOfProperties, depth_moved p,
      depthOfProperties_moved ps]

end

theorem rendered_moved (s : Schema) : s.moved.rendered names = s.rendered names := by
  rw [rendered, rendered, render_moved]

theorem isAlias_moved (s : Schema) : Definitions.isAlias s.moved = Definitions.isAlias s := by
  cases s with
  | object _ _ additional _ => cases additional <;> rfl
  | dictionary _ additional _ => cases additional <;> rfl
  | _ => rfl

end Schema

/-! ## Lookups -/

namespace SchemaIndex

open Migration (Movable Plain newPlace oldPlace)

variable {index : SchemaIndex}

/-- The definitions with their references moved, in the new place. -/
def moved (index : SchemaIndex) : SchemaIndex :=
  ⟨newPlace, index.entries.map fun e => (e.1, e.2.moved)⟩

/-- Definitions in the old place that can be moved: none is named like a pointer, and none has a
reference to the new place. -/
structure Moves (index : SchemaIndex) : Prop where
  base : index.base = oldPlace
  plain : ∀ e, e ∈ index.entries → Plain e.1
  movable : ∀ e, e ∈ index.entries → ∀ ref, ref ∈ e.2.references → Movable ref

/-- A reference names the same definition as before. -/
theorem names_moved (h : index.Moves) {name ref : String} (hname : Plain name)
    (href : Movable ref) : index.moved.names name (Migration.moved ref) = index.names name ref := by
  have hpointer : ∀ place rest : String, (['#', '/'] : List Char) <+: place.toList →
      name ≠ place ++ rest := by
    rintro place rest hplace rfl
    refine hname (hplace.trans ?_)
    rw [String.toList_append]
    exact List.prefix_append _ _
  have hold : ∀ rest, name ≠ oldPlace ++ rest := fun rest => hpointer oldPlace rest (by decide)
  have hnew : ∀ rest, name ≠ newPlace ++ rest := fun rest => hpointer newPlace rest (by decide)
  have hcancel : ∀ place rest : String, place ++ name = place ++ rest ↔ name = rest := by
    intro place rest
    refine ⟨fun e => ?_, fun e => e ▸ rfl⟩
    rw [← String.toList_inj, String.toList_append, String.toList_append] at e
    exact String.toList_inj.1 (List.append_cancel_left e)
  rw [Bool.eq_iff_iff, names, names, Bool.or_eq_true, Bool.or_eq_true, beq_iff_eq, beq_iff_eq,
    beq_iff_eq, beq_iff_eq, h.base, moved]
  rcases Migration.moved_cases ref with ⟨rest, rfl, hmoved⟩ | ⟨hplace, hmoved⟩
  · rw [hmoved, hcancel, hcancel, or_iff_right (hnew rest), or_iff_right (hold rest)]
  -- a reference that stays as it is names neither place
  · have hneither : ∀ place : String, ¬place.toList <+: ref.toList → place ++ name ≠ ref := by
      rintro place hno rfl
      exact hno ⟨name.toList, String.toList_append.symm⟩
    rw [hmoved, or_iff_left (hneither newPlace href), or_iff_left (hneither oldPlace hplace)]

/-- A reference leads to what it led to before. -/
theorem lookup?_moved (h : index.Moves) {ref : String} (href : Movable ref) :
    index.moved.lookup? (Migration.moved ref) = (index.lookup? ref).map Schema.moved := by
  have hfind : (index.entries.reverse.find? fun e =>
      index.moved.names e.1 (Migration.moved ref)) =
      index.entries.reverse.find? fun e => index.names e.1 ref :=
    List.find?_congr fun e he => names_moved h (h.plain e (List.mem_reverse.1 he)) href
  have hentries : index.moved.entries.reverse =
      index.entries.reverse.map fun e => (e.1, e.2.moved) := List.map_reverse.symm
  rw [lookup?, hentries, List.find?_map, lookup?, Option.map_map, Option.map_map]
  exact congrArg _ hfind

/-- So does a name, which is not moved. -/
theorem lookup?_moved_of_plain (h : index.Moves) {name : String} (hname : Plain name) :
    index.moved.lookup? name = (index.lookup? name).map Schema.moved := by
  obtain ⟨hself, hmovable⟩ := Migration.moved_of_plain hname
  have hlookup := lookup?_moved h hmovable
  rw [hself] at hlookup
  exact hlookup

/-- What is found under a reference can be moved itself. -/
theorem Moves.of_lookup? (h : index.Moves) {ref : String} {s : Schema}
    (hs : index.lookup? ref = some s) : ∀ r, r ∈ s.references → Movable r := by
  obtain ⟨name, hmem, -⟩ := lookup?_eq_some hs
  exact h.movable _ hmem

end SchemaIndex

/-! ## Following references -/

namespace Schema

open Migration (Movable)

variable {index : SchemaIndex} {names : Ordered String}

/-- Members are written as before, if each is. -/
theorem outcome_renderFollowingMembers_moved {seen : List String} {ms : List Schema}
    (h : ∀ m, m ∈ ms →
      (renderFollowing index.moved names (seen.map Migration.moved) m.moved).outcome =
        (renderFollowing index names seen m).outcome) :
    (renderFollowingMembers index.moved names (seen.map Migration.moved)
      (movedMembers ms)).outcome = (renderFollowingMembers index names seen ms).outcome := by
  induction ms with
  | nil => rw [movedMembers, renderFollowingMembers, renderFollowingMembers]
  | cons m rest ih =>
    have hrest := ih fun w hw => h w (List.mem_cons_of_mem _ hw)
    rw [movedMembers, renderFollowingMembers, renderFollowingMembers]
    exact Checked.outcome_bind_congr (h m List.mem_cons_self) fun _ =>
      Checked.outcome_bind_congr hrest fun _ => rfl

/-- Following references writes what it wrote before they were moved. -/
theorem outcome_renderFollowing_moved (hindex : index.Moves) (seen : List String)
    (hseen : ∀ ref, ref ∈ seen → Movable ref) (s : Schema)
    (hs : ∀ ref, ref ∈ s.references → Movable ref) :
    (renderFollowing index.moved names (seen.map Migration.moved) s.moved).outcome =
      (renderFollowing index names seen s).outcome := by
  induction seen, s using SchemaIndex.follow_induction index with
  | primitive seen type format values n =>
    rw [moved, renderFollowing.eq_def, renderFollowing.eq_def]
  | object seen properties required additional n =>
    have hsame : (object properties required additional n).moved.rendered names =
        (object properties required additional n).rendered names := rendered_moved _
    cases additional with
    | none =>
      rw [moved, renderFollowing.eq_def, renderFollowing.eq_def]
      exact congrArg Checked.outcome hsame
    | some a =>
      rw [moved, renderFollowing.eq_def, renderFollowing.eq_def]
      exact congrArg Checked.outcome hsame
  | dictionary seen required additional n =>
    have hsame : (dictionary required additional n).moved.rendered names =
        (dictionary required additional n).rendered names := rendered_moved _
    cases additional with
    | none => rw [moved, renderFollowing.eq_def, renderFollowing.eq_def]
    | some a =>
      rw [moved, renderFollowing.eq_def, renderFollowing.eq_def]
      exact congrArg Checked.outcome hsame
  | array seen items n ih =>
    rw [moved, renderFollowing, renderFollowing]
    exact Checked.outcome_bind_congr (ih hseen hs) fun _ => rfl
  | composite seen mode members n ih =>
    have hmembers := outcome_renderFollowingMembers_moved fun m hm =>
      ih m hm hseen fun ref hr => hs ref (mem_referencesOfMembers.2 ⟨m, hm, hr⟩)
    rw [moved, renderFollowing, renderFollowing]
    exact Checked.outcome_bind_congr hmembers fun _ => rfl
  | lost seen ref n hlost =>
    have hlookup := SchemaIndex.lookup?_moved hindex (hs ref (List.mem_singleton.2 rfl))
    rw [hlost] at hlookup
    rw [moved, outcome_renderFollowing_lost n hlost, outcome_renderFollowing_lost n hlookup]
    exact render_moved (reference ref n)
  | again seen ref n body hbody hmem =>
    have hlookup := SchemaIndex.lookup?_moved hindex (hs ref (List.mem_singleton.2 rfl))
    rw [hbody] at hlookup
    rw [moved, renderFollowing_again n hbody hmem,
      renderFollowing_again n hlookup (List.mem_map_of_mem hmem)]
    exact congrArg Checked.outcome (rendered_moved (reference ref n))
  | follow seen ref n body hbody hmem ih =>
    have href : Movable ref := hs ref (List.mem_singleton.2 rfl)
    have hlookup := SchemaIndex.lookup?_moved hindex href
    rw [hbody] at hlookup
    have hmem' : Migration.moved ref ∉ seen.map Migration.moved := by
      intro h
      obtain ⟨other, hother, he⟩ := List.mem_map.1 h
      exact hmem (Migration.moved_injective (hseen other hother) href he ▸ hother)
    have hfollowed := ih (List.forall_mem_cons.2 ⟨href, hseen⟩) (hindex.of_lookup? hbody)
    rw [moved, renderFollowing_follow n hbody hmem, renderFollowing_follow n hlookup hmem']
    exact Checked.outcome_bind_congr hfollowed fun _ => rfl

end Schema

end TypedClients
