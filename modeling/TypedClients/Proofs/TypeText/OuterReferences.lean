import TypedClients.TypeText.OfOperation

/-!
# Following outer references, case by case

References are followed into list items, into members of compositions and into what a
reference leads to, once for each reference on the way. What holds of every schema that is
written so is proved along the same way: of a reference it is enough that it holds where the
reference leads, with one more that is being followed.

* `SchemaIndex.follow_induction`: the induction, with the measure of `renderFollowing` behind it.
* `Schema.renderFollowing_lost`, `Schema.renderFollowing_again`,
  `Schema.renderFollowing_follow`: what is written for a reference in each of the three cases.
-/

namespace TypedClients

/-- Induction along the references that are followed from a schema while those in a list are
being followed around it. -/
@[elab_as_elim]
theorem SchemaIndex.follow_induction (index : SchemaIndex) {motive : List String → Schema → Prop}
    (primitive : ∀ seen type format values n, motive seen (.primitive type format values n))
    (object : ∀ seen properties required additional n,
      motive seen (.object properties required additional n))
    (dictionary : ∀ seen required additional n, motive seen (.dictionary required additional n))
    (array : ∀ seen items n, motive seen items → motive seen (.array items n))
    (composite : ∀ seen mode members n, (∀ m, m ∈ members → motive seen m) →
      motive seen (.composite mode members n))
    (lost : ∀ seen ref n, index.lookup? ref = none → motive seen (.reference ref n))
    (again : ∀ seen ref n body, index.lookup? ref = some body → ref ∈ seen →
      motive seen (.reference ref n))
    (follow : ∀ seen ref n body, index.lookup? ref = some body → ref ∉ seen →
      motive (ref :: seen) body → motive seen (.reference ref n))
    (seen : List String) (s : Schema) : motive seen s := by
  match s with
  | .primitive type format values n => exact primitive seen type format values n
  | .object properties required additional n => exact object seen properties required additional n
  | .dictionary required additional n => exact dictionary seen required additional n
  | .array items n =>
    exact array seen items n
      (follow_induction index primitive object dictionary array composite lost again
        follow seen items)
  | .composite mode members n =>
    exact composite seen mode members n fun m hm => follow_induction index primitive
      object dictionary array composite lost again follow seen m
  | .reference ref n =>
    cases hbody : index.lookup? ref with
    | none => exact lost seen ref n hbody
    | some body =>
      by_cases hs : ref ∈ seen
      · exact again seen ref n body hbody hs
      · exact follow seen ref n body hbody hs
          (follow_induction index primitive object dictionary array composite lost again follow
            (ref :: seen) body)
termination_by index.effort seen (sizeOf s)
decreasing_by
  · exact effort_lt (by simp only [Schema.array.sizeOf_spec]; omega)
  · have hsize := List.sizeOf_lt_of_mem hm
    exact effort_lt (by simp only [Schema.composite.sizeOf_spec]; omega)
  · exact effort_follow_lt hbody hs

namespace Schema

open TypeText (withNull)

variable {index : SchemaIndex} {names : Ordered String} {seen : List String} {ref : String}

theorem renderFollowing_lost (n : Bool) (h : index.lookup? ref = none) :
    renderFollowing index names seen (reference ref n) = (do
      discard <| Checked.logged (index.resolve ref)
      Checked.warn .types ("Cannot resolve $ref '" ++ ref ++ "'; using " ++
        referenceName names ref ++ " as a forward reference")
      (reference ref n).rendered names) := by
  rw [renderFollowing]
  split
  next => rfl
  next body hbody => exact absurd (hbody.symm.trans h) (Option.some_ne_none body)

/-- What is reported leaves the text as it is. -/
theorem outcome_renderFollowing_lost (n : Bool) (h : index.lookup? ref = none) :
    (renderFollowing index names seen (reference ref n)).outcome =
    (reference ref n).render names := by
  rw [renderFollowing_lost n h]
  rfl

theorem renderFollowing_again {body : Schema} (n : Bool) (h : index.lookup? ref = some body)
    (hs : ref ∈ seen) :
    renderFollowing index names seen (reference ref n) = (reference ref n).rendered names := by
  rw [renderFollowing]
  split
  next hnone => exact absurd (h.symm.trans hnone) (Option.some_ne_none body)
  next => rw [dif_pos hs]

theorem renderFollowing_follow {body : Schema} (n : Bool) (h : index.lookup? ref = some body)
    (hs : ref ∉ seen) : renderFollowing index names seen (reference ref n) =
      do return withNull n (← renderFollowing index names (ref :: seen) body) := by
  rw [renderFollowing]
  split
  next hnone => exact absurd (h.symm.trans hnone) (Option.some_ne_none body)
  next body' hbody =>
    obtain rfl := Option.some.inj (h.symm.trans hbody)
    rw [dif_neg hs]

end Schema

end TypedClients
