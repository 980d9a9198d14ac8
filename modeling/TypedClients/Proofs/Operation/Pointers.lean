import TypedClients.Operation.Extraction
import TypedClients.Proofs.Report.Reasons
import TypedClients.Proofs.Value.Json

/-!
# What a reference outside of a schema cannot be followed for

Parameters, request bodies and answers may be kept elsewhere in a document. A reference that
leads nowhere counts as null, with a warning. But a step on a list is taken for a number if
all of its characters are digits of some kind, and then has to be one: a superscript two is a
digit and no number, and neither are digits of which there are too many. A reference that
trips over such a step is not followed at all.

* `failsFor_dereference`: a reference is followed, to nowhere perhaps, unless it trips.
* `failsFor_collect`: so are those of a list of parameters.
-/

namespace TypedClients

namespace Pointer

variable {v w : Value} {step : List Char} {steps : List (List Char)}

/-- A step that is made of digits, on a list, and yet is no number that can be read. -/
structure TripsAt (v : Value) (step : List Char) : Prop where
  map : v.isMap = false
  items : v.items?.isSome = true
  digits : (!step.isEmpty && step.all Text.isDigit) = true
  unreadable : step.length > Number.maxDigits ∨ step.all Text.isDecimal = false

/-- Steps from a value that come to such a step. -/
inductive Trips : Value → List (List Char) → Prop
  | here {v : Value} {step : List Char} {rest : List (List Char)} (h : TripsAt v step) :
    Trips v (step :: rest)
  | later {v w : Value} {step : List Char} {rest : List (List Char)}
      (hstep : step? v step = .ok (some w)) (h : Trips w rest) : Trips v (step :: rest)

theorem isSome_foldlM_digits (s : List Char) (n : Nat) :
    (s.foldlM (fun n c => (Text.digitValue? c).map (10 * n + ·)) n).isSome =
    s.all Text.isDecimal := by
  induction s generalizing n with
  | nil => rfl
  | cons c rest ih =>
    rw [List.foldlM_cons, List.all_cons, Text.isDecimal]
    cases Text.digitValue? c with
    | none => rfl
    | some k => exact ih _

/-- A text of digits is a number exactly if they are decimal ones. -/
theorem isSome_decimalValue? (hne : step.isEmpty = false) :
    (Text.decimalValue? step).isSome = step.all Text.isDecimal := by
  rw [Text.decimalValue?, hne]
  exact isSome_foldlM_digits step 0

theorem step?_of_tripsAt (h : TripsAt v step) : step? v step = .error (.mishap .wrongValue) := by
  obtain ⟨hmap, hitems, hdigits, hunreadable⟩ := h
  obtain ⟨xs, hxs⟩ := Option.isSome_iff_exists.1 hitems
  obtain ⟨hne, hall⟩ := Bool.and_eq_true_iff.1 hdigits
  rw [Bool.not_eq_true'] at hne
  rw [step?, hmap, hxs, hne, hall, if_neg Bool.false_ne_true]
  dsimp only
  rw [if_neg (by decide)]
  split
  next => rfl
  next hshort =>
    have hnone := (isSome_decimalValue? hne).trans (hunreadable.resolve_left hshort)
    rw [Option.isSome_eq_false_iff, Option.isNone_iff_eq_none] at hnone
    rw [hnone]

/-- Any other step comes to a value or to none. -/
theorem exists_step? (h : ¬ TripsAt v step) : ∃ o, step? v step = .ok o := by
  rw [step?]
  cases hmap : v.isMap with
  | true => exact ⟨_, rfl⟩
  | false =>
    rw [if_neg Bool.false_ne_true]
    cases hxs : v.items? with
    | none => exact ⟨_, rfl⟩
    | some xs =>
      dsimp only
      split
      next => exact ⟨_, rfl⟩
      next hdigits =>
        rw [Bool.or_eq_true, not_or, Bool.not_eq_true, Bool.not_eq_true',
          Bool.not_eq_false] at hdigits
        have hsome : v.items?.isSome = true := by rw [hxs]; rfl
        have hnumber : (!step.isEmpty && step.all Text.isDigit) = true := by
          rw [hdigits.1, hdigits.2]
          rfl
        split
        next hlong => exact absurd ⟨hmap, hsome, hnumber, Or.inl hlong⟩ h
        next =>
          split
          next => exact ⟨_, rfl⟩
          next hnone =>
            have hdecimal := isSome_decimalValue? hdigits.1
            rw [hnone] at hdecimal
            exact absurd ⟨hmap, hsome, hnumber, Or.inr hdecimal.symm⟩ h

theorem isJson_of_step? (h : v.IsJson) (hw : step? v step = .ok (some w)) : w.IsJson := by
  rw [step?] at hw
  split at hw
  · exact h.get? (Except.ok.inj hw)
  · split at hw
    next xs hxs =>
      split at hw
      · cases hw
      · split at hw
        · cases hw
        · split at hw
          · exact h.items? hxs (List.mem_of_getElem? (Except.ok.inj hw))
          · cases hw
    next => cases hw

/-- Steps are followed, to nowhere perhaps, unless they trip. -/
theorem failsFor_follow (h : v.IsJson) (steps : List (List Char)) :
    FailsFor (follow v steps) (fun f => f = .mishap .wrongValue ∧ Trips v steps)
      fun o => ∀ w, o = some w → w.IsJson := by
  induction steps generalizing v with
  | nil => exact .of_ok (fun w hw => Option.some.inj hw ▸ h) fun f hf => (nomatch hf.2)
  | cons step rest ih =>
    rw [follow]
    by_cases htrips : TripsAt v step
    · rw [step?_of_tripsAt htrips]
      exact .of_error ⟨rfl, .here htrips⟩
    · obtain ⟨o, ho⟩ := exists_step? htrips
      rw [ho]
      cases o with
      | none =>
        refine .of_ok (fun w hw => (nomatch hw)) fun f hf => ?_
        cases hf.2 with
        | here hhere => exact htrips hhere
        | later hstep => exact (nomatch ho.symm.trans hstep)
      | some w =>
        refine (ih (isJson_of_step? h ho)).congr fun f => and_congr_right fun _ => ?_
        refine ⟨fun hrest => .later ho hrest, fun hsteps => ?_⟩
        cases hsteps with
        | here hhere => exact absurd hhere htrips
        | later hstep hrest => exact Option.some.inj (Except.ok.inj (ho.symm.trans hstep)) ▸ hrest

end Pointer

namespace Extraction

open Value (IsJson)

variable {d : Document} {v : Value}

/-- What a value stands for: what it refers to, if it is a reference, and null if that is not
there. -/
def target (d : Document) (v : Value) : Value :=
  match v.reference? with
  | none => v
  | some ref => (Pointer.resolve d.root ref).toOption.getD .null

/-- A reference that trips, and how this is reported. -/
def Mislaid (d : Document) (v : Value) (f : Failure) : Prop :=
  f = .mishap .wrongValue ∧ ∃ ref steps, v.reference? = some ref ∧ Pointer.steps? ref = some steps ∧
    Pointer.Trips d.root steps

/-- What a value stands for is found, unless it is a reference that trips. -/
theorem failsFor_dereference (hd : d.root.IsJson) (v : Value) :
    FailsFor (dereference d v).outcome (Mislaid d v) fun w => w = target d v := by
  rw [dereference, target]
  cases href : v.reference? with
  | none =>
    refine .of_ok rfl fun f ⟨_, ref, steps, href', _⟩ => ?_
    exact (nomatch href.symm.trans href')
  | some ref =>
    dsimp only
    rw [Pointer.resolve]
    cases hsteps : Pointer.steps? ref with
    | none =>
      refine .of_ok rfl fun f ⟨_, ref', steps, href', hsteps', _⟩ => ?_
      obtain rfl := Option.some.inj (href.symm.trans href')
      exact (nomatch hsteps.symm.trans hsteps')
    | some steps =>
      have hmislaid : ∀ f, Mislaid d v f → f = .mishap .wrongValue ∧
        Pointer.Trips d.root steps := by
        rintro f ⟨hf, ref', steps', href', hsteps', htrips⟩
        obtain rfl := Option.some.inj (href.symm.trans href')
        exact ⟨hf, Option.some.inj (hsteps.symm.trans hsteps') ▸ htrips⟩
      have hfollow := Pointer.failsFor_follow hd steps
      dsimp only
      cases hfound : Pointer.follow d.root steps with
      | error f =>
        obtain ⟨rfl, htrips⟩ := hfollow.caused f hfound
        exact .of_error (f := .mishap .wrongValue) ⟨rfl, ref, steps, href, hsteps, htrips⟩
      | ok o =>
        have hclear : ∀ f, ¬ Mislaid d v f := fun f hf =>
          (hfollow.clear o hfound).2 f (hmislaid f hf)
        cases o with
        | none => exact .of_ok rfl hclear
        | some w => exact .of_ok rfl hclear

theorem isJson_target (hd : d.root.IsJson) (hv : v.IsJson) : (target d v).IsJson := by
  rw [target]
  split
  · exact hv
  · rw [Pointer.resolve]
    split
    · exact .null
    · next ref steps hsteps =>
      have hfollow := Pointer.failsFor_follow hd steps
      cases hfound : Pointer.follow d.root steps with
      | error f => exact .null
      | ok o =>
        cases o with
        | none => exact .null
        | some w => exact (hfollow.clear _ hfound).1 w rfl

/-! ## Lists of parameters -/

/-- The parameters that a list stands for. -/
def targets (d : Document) (vs : List Value) : List Value := (vs.map (target d)).filter isUsable

/-- They are found, unless the list holds a reference that trips. -/
theorem failsFor_collectItems (hd : d.root.IsJson) (vs : List Value) :
    FailsFor (collectItems d vs).outcome
      (fun f => ∃ v, v ∈ vs ∧ Mislaid d v f) fun ps => ps = targets d vs := by
  induction vs with
  | nil => exact .of_ok rfl fun _ => FailsFor.exists_mem_nil
  | cons v rest ih =>
    rw [collectItems]
    refine FailsFor.congr ((failsFor_dereference hd v).checked_bind fun p hp => ?_)
      fun _ => FailsFor.exists_mem_cons
    subst hp
    rw [targets, List.map_cons]
    cases husable : isUsable (target d v) with
    | true =>
      rw [if_pos rfl, List.filter_cons_of_pos husable]
      exact ih.checked_map fun ps hps => congrArg _ hps
    | false =>
      rw [if_neg Bool.false_ne_true,
        List.filter_cons_of_neg (by rw [husable]; exact Bool.false_ne_true)]
      rw [Checked.outcome_bind]
      exact ih

/-- An optional list of parameters, as the values in it. -/
def listed (list : Option Value) : List Value := (list.bind Value.items?).getD []

theorem failsFor_collect (hd : d.root.IsJson) (list : Option Value) :
    FailsFor (collect d list).outcome
      (fun f => ∃ v, v ∈ listed list ∧ Mislaid d v f) fun ps => ps = targets d (listed list) := by
  rw [collect, listed]
  cases list.bind Value.items? with
  | none => exact .of_ok rfl fun _ => FailsFor.exists_mem_nil
  | some items => exact failsFor_collectItems hd items

end Extraction

end TypedClients
