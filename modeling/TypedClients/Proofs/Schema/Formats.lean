import TypedClients.Proofs.Migration.Schemas
import TypedClients.Proofs.Report.Reasons
import TypedClients.Proofs.TypeText.Printable

/-!
# What a schema object cannot be read for

Whatever the fields of a schema object hold, it is read as some schema, but for one of them:
the format of a scalar is taken as it is, and has to be a text. So a schema object from JSON
fails to be read exactly if some object that is read along with it is a scalar with a format
of another kind.

* `failsFor_ofValue`: reading a schema object fails exactly for a stray format inside.
-/

namespace TypedClients

namespace Value

variable {v w : Value}

/-- Whether a field is given, and is neither null nor a text. -/
def holdsNoText (v : Value) (key : String) : Bool :=
  match v.get? key with
  | none | some null | some (str _) => false
  | some _ => true

/-- Whether a schema object describes an object by its type or its properties. -/
def describesObject (v : Value) : Bool :=
  primaryType (v.get? "type") = some "object" || v.has "properties"

/-- The values that are read as schemas along with a schema object. -/
def schemasInside (v : Value) : List Value :=
  if !v.isMap || v.reference?.isSome then []
  else if primaryType (v.get? "type") = some "array" then (v.get? "items").toList
  else if v.literals?.isSome then []
  else match v.composition? with
    | some c => c.2
    | none => v.additional?.toList ++
      if v.describesObject then (v.properties?.getD []).map Prod.snd else []

/-- Whether a schema object is read as a scalar. -/
def isScalarSchema (v : Value) : Bool :=
  v.isMap && v.reference?.isNone && primaryType (v.get? "type") ≠ some "array" &&
    (v.literals?.isSome || (v.composition?.isNone && !v.describesObject && !v.allowsAdditional))

/-- A schema object with a scalar in it, or that is one, whose format is no text. -/
inductive StrayFormat : Value → Prop
  | here {v : Value} (hscalar : v.isScalarSchema = true) (hformat : v.holdsNoText "format" = true) :
    StrayFormat v
  | inside {v w : Value} (hw : w ∈ v.schemasInside) (h : StrayFormat w) : StrayFormat v

theorem strayFormat_iff : StrayFormat v ↔
    (v.isScalarSchema = true ∧ v.holdsNoText "format" = true) ∨
      ∃ w, w ∈ v.schemasInside ∧ StrayFormat w := by
  constructor
  · intro h
    cases h with
    | here hscalar hformat => exact Or.inl ⟨hscalar, hformat⟩
    | inside hw h => exact Or.inr ⟨_, hw, h⟩
  · rintro (⟨hscalar, hformat⟩ | ⟨w, hw, h⟩)
    · exact .here hscalar hformat
    · exact .inside hw h

theorem strayFormat_of_scalar (hscalar : v.isScalarSchema = true) (hinside : v.schemasInside = []) :
    StrayFormat v ↔ v.holdsNoText "format" = true := by
  rw [strayFormat_iff, hinside]
  exact ⟨fun h => h.elim And.right fun ⟨_, hw, _⟩ => absurd hw List.not_mem_nil,
    fun h => Or.inl ⟨hscalar, h⟩⟩

theorem strayFormat_of_inside (hscalar : v.isScalarSchema = false) :
    StrayFormat v ↔ ∃ w, w ∈ v.schemasInside ∧ StrayFormat w := by
  rw [strayFormat_iff, hscalar]
  exact or_iff_right fun h => Bool.false_ne_true h.1

theorem allowsAdditional_of_additional? {a : Value} (h : v.additional? = some a) :
    v.allowsAdditional = true := by
  obtain ⟨hget, hmap⟩ := Option.filter_eq_some_iff.1 h
  rw [Bool.and_eq_true] at hmap
  rw [allowsAdditional, hget]
  cases a with
  | map es => rfl
  | knot id w => rfl
  | _ => exact absurd hmap.1 Bool.false_ne_true

theorem IsJson.composition? (h : v.IsJson) {c : Composition × List Value}
    (hc : v.composition? = some c) (hw : w ∈ c.2) : w.IsJson := by
  obtain ⟨mode, -, hmode⟩ := List.exists_of_findSome?_eq_some hc
  obtain ⟨ms, hms, rfl⟩ := Option.map_eq_some_iff.1 hmode
  exact h.list? hms hw

end Value

/-- The failure of a field of a model that should be a text. -/
def noText (model field : String) : Failure := .invalid ⟨model, [⟨[.field field], .notAString⟩]⟩

namespace Schema

open Value (IsJson StrayFormat keyIssues)

variable {v : Value}

/-- A text field fails for a value of another kind. -/
theorem failsFor_textField (h : v.IsJson) (model field key : String) :
    FailsFor (textField model field (v.get? key))
      (fun f => f = noText model field ∧ v.holdsNoText key = true) fun _ => True := by
  rw [Value.holdsNoText]
  cases hw : v.get? key with
  | none => exact .of_ok trivial fun _ hf => Bool.false_ne_true hf.2
  | some w =>
    cases h.get? hw with
    | null => exact .of_ok trivial fun _ hf => Bool.false_ne_true hf.2
    | str s => exact .of_ok trivial fun _ hf => Bool.false_ne_true hf.2
    | _ => exact .of_error ⟨rfl, rfl⟩

/-- The reasons for which a schema object is not read. -/
def Unread (v : Value) (f : Failure) : Prop := f = noText "PrimitiveSchema" "format" ∧ StrayFormat v

/-- A scalar is not read for its own format. -/
theorem failsFor_scalar (h : v.IsJson) (hscalar : v.isScalarSchema = true)
    (hinside : v.schemasInside = []) {values : Option (List Value)}
    (hvalues : ∀ w, w ∈ values.getD [] → w.IsJson) :
    FailsFor (scalar v values) (Unread v) Printable := by
  have hfield := failsFor_textField h "PrimitiveSchema" "format" "format"
  refine FailsFor.congr (hfield.map fun _ _ => .primitive fun w hw => exists_literal (hvalues w hw))
    fun f => ?_
  rw [Unread, Value.strayFormat_of_scalar hscalar hinside]

/-- Reasons that are those of the values inside. -/
theorem unread_iff_inside (hscalar : v.isScalarSchema = false) (f : Failure) :
    (∃ w, w ∈ v.schemasInside ∧ Unread w f) ↔ Unread v f := by
  rw [Unread, Value.strayFormat_of_inside hscalar]
  exact ⟨fun ⟨w, hw, hf, h⟩ => ⟨hf, w, hw, h⟩, fun ⟨hf, w, hw, h⟩ => ⟨w, hw, hf, h⟩⟩

/-- Properties under texts whose schemas can all be written. -/
def ArePrintable (ps : List (Value × Schema)) : Prop :=
  ∀ p, p ∈ ps → (∃ s, p.1 = .str s) ∧ p.2.Printable

theorem ArePrintable.of_mem_named {ps : List (Value × Schema)} (h : ArePrintable ps)
    {p : String × Schema} (hp : p ∈ Value.named ps) : p.2.Printable :=
  (h _ ((Value.mem_of_mem_named fun e he => (h e he).1).1 hp)).2

/-- A schema object that is no reference, list, enumeration or composition. -/
structure IsFields (v : Value) : Prop where
  map : v.isMap = true
  reference : v.reference? = none
  array : Value.primaryType (v.get? "type") ≠ some "array"
  literals : v.literals? = none
  composition : v.composition? = none

theorem IsFields.isScalarSchema (h : IsFields v) :
    v.isScalarSchema = (!v.describesObject && !v.allowsAdditional) := by
  simp [Value.isScalarSchema, h.map, h.reference, h.array, h.literals, h.composition]

theorem IsFields.schemasInside (h : IsFields v) : v.schemasInside = v.additional?.toList ++
    if v.describesObject then (v.properties?.getD []).map Prod.snd else [] := by
  simp [Value.schemasInside, h.map, h.reference, h.array, h.literals, h.composition]

theorem unread_of_inside {w : Value} {f : Failure} (hw : w ∈ v.schemasInside) (h : Unread w f) :
    Unread v f := ⟨h.1, .inside hw h.2⟩

/-- Such an object is not read for the schema of further properties, for its properties, or
for itself. -/
theorem IsFields.unread_iff (h : IsFields v) (f : Failure) :
    ((∃ a, a ∈ v.additional? ∧ Unread a f) ∨
      (v.describesObject = true ∧ ∃ w, w ∈ (v.properties?.getD []).map Prod.snd ∧ Unread w f) ∨
        (v.isScalarSchema = true ∧ Unread v f)) ↔ Unread v f := by
  constructor
  · rintro (⟨a, ha, hf⟩ | ⟨hobject, w, hw, hf⟩ | ⟨-, hf⟩)
    · refine unread_of_inside ?_ hf
      rw [h.schemasInside]
      exact List.mem_append_left _ (Option.mem_toList.2 ha)
    · refine unread_of_inside ?_ hf
      rw [h.schemasInside, if_pos hobject]
      exact List.mem_append_right _ hw
    · exact hf
  · intro hf
    cases hscalar : v.isScalarSchema with
    | true => exact Or.inr (Or.inr ⟨rfl, hf⟩)
    | false =>
      obtain ⟨w, hw, hf⟩ := (unread_iff_inside hscalar f).2 hf
      rw [h.schemasInside, List.mem_append] at hw
      rcases hw with hw | hw
      · exact Or.inl ⟨w, Option.mem_toList.1 hw, hf⟩
      · split at hw
        next hobject => exact Or.inr (Or.inl ⟨hobject, w, hw, hf⟩)
        next => exact absurd hw List.not_mem_nil

/-- Its properties, or it itself if it is a scalar, are what is read last. -/
theorem failsFor_ofFields (h : v.IsJson) (hfields : IsFields v) {additional : Option Schema}
    (hadditional : ∀ s, additional = some s → s.Printable)
    (hproperties : ∀ es, v.properties? = some es → FailsFor (ofProperties es)
      (fun f => ∃ w, w ∈ es.map Prod.snd ∧ Unread w f) ArePrintable) :
    FailsFor (ofFields v additional) (fun f =>
      (v.describesObject = true ∧ ∃ w, w ∈ (v.properties?.getD []).map Prod.snd ∧ Unread w f) ∨
        (v.isScalarSchema = true ∧ Unread v f)) Printable := by
  have hscalar := hfields.isScalarSchema
  have hinside := hfields.schemasInside
  rw [ofFields, ← Value.describesObject]
  cases hobject : v.describesObject with
  | true =>
    rw [hobject, Bool.not_true, Bool.false_and] at hscalar
    rw [if_pos rfl, hscalar]
    cases hes : v.properties? with
    | none =>
      refine .of_ok (.dictionary hadditional) fun f hf => ?_
      rcases hf with ⟨-, w, hw, -⟩ | ⟨hf, -⟩
      · exact List.not_mem_nil hw
      · exact Bool.false_ne_true hf
    | some es =>
      -- in JSON the properties are under texts, so the keys cannot be unfit
      have hkeys : Value.keyIssues "properties" es = [] :=
        Value.keyIssues_eq_nil fun e he => (h.properties? hes he).1
      dsimp only
      rw [hkeys]
      refine FailsFor.congr ((hproperties es hes).map fun ps hps =>
        .object fun p hp => hps.of_mem_named hp) fun f => ?_
      simp
  | false =>
    rw [hobject, Bool.not_false, Bool.true_and] at hscalar
    rw [if_neg Bool.false_ne_true]
    cases hallows : v.allowsAdditional with
    | true =>
      rw [hallows, Bool.not_true] at hscalar
      rw [if_pos rfl, hscalar]
      refine .of_ok (.dictionary hadditional) fun f hf => ?_
      rcases hf with ⟨hf, -⟩ | ⟨hf, -⟩
      · exact Bool.false_ne_true hf
      · exact Bool.false_ne_true hf
    | false =>
      rw [hallows, Bool.not_false] at hscalar
      rw [if_neg Bool.false_ne_true]
      have hnone : v.additional? = none := by
        cases ha : v.additional? with
        | none => rfl
        | some a =>
          have hallows' := Value.allowsAdditional_of_additional? ha
          rw [hallows] at hallows'
          exact absurd hallows' Bool.false_ne_true
      rw [hnone, hobject, if_neg Bool.false_ne_true] at hinside
      have hnone : ∀ w, w ∈ (none : Option (List Value)).getD [] → w.IsJson :=
        fun w hw => absurd hw List.not_mem_nil
      refine FailsFor.congr (failsFor_scalar h hscalar hinside hnone) fun f => ?_
      simp [hscalar]

/-! ### One kind of schema object after the other -/

/-- Of a value that is no scalar, and along with which nothing is read, a schema is made in
any case. -/
theorem failsFor_ok (hscalar : v.isScalarSchema = false) (hinside : v.schemasInside = [])
    {s : Schema} (hs : s.Printable) : FailsFor (.ok s) (Unread v) Printable := by
  refine .of_ok hs fun f hf => ?_
  obtain ⟨w, hw, -⟩ := (unread_iff_inside hscalar f).2 hf
  exact List.not_mem_nil (hinside ▸ hw)

/-- A list is read if its items are. -/
theorem failsFor_array (hmap : v.isMap = true) (href : v.reference? = none)
    (harray : Value.primaryType (v.get? "type") = some "array")
    (hitems : ∀ w, v.get? "items" = some w → FailsFor (ofValue w) (Unread w) Printable) :
    FailsFor (match v.get? "items" with
      | none => .ok (.array untyped v.admitsNull)
      | some items => return .array (← ofValue items) v.admitsNull) (Unread v) Printable := by
  have hscalar : v.isScalarSchema = false := by simp [Value.isScalarSchema, harray]
  have hinside : v.schemasInside = (v.get? "items").toList := by
    simp [Value.schemasInside, hmap, href, harray]
  cases hget : v.get? "items" with
  | none =>
    rw [hget] at hinside
    exact failsFor_ok hscalar hinside (.array (.primitive fun w hw => absurd hw List.not_mem_nil))
  | some items =>
    rw [hget] at hinside
    refine FailsFor.congr ((hitems items hget).map fun _ hs => .array hs) fun f => ?_
    rw [← unread_iff_inside hscalar, hinside]
    simp

/-- A composition is read if its members are. -/
theorem failsFor_composite (hmap : v.isMap = true) (href : v.reference? = none)
    (harray : Value.primaryType (v.get? "type") ≠ some "array") (hlit : v.literals? = none)
    {c : Composition × List Value} (hcomp : v.composition? = some c)
    (hmembers : FailsFor (ofMembers c.2) (fun f => ∃ w, w ∈ c.2 ∧ Unread w f)
      fun ms => ∀ m, m ∈ ms → m.Printable) :
    FailsFor (do return .composite c.1 (← ofMembers c.2) v.admitsNull) (Unread v) Printable := by
  have hscalar : v.isScalarSchema = false := by simp [Value.isScalarSchema, hlit, hcomp]
  have hinside : v.schemasInside = c.2 := by
    simp [Value.schemasInside, hmap, href, harray, hlit, hcomp]
  refine FailsFor.congr (hmembers.map fun _ hs => .composite hs) fun f => ?_
  rw [← hinside]
  exact unread_iff_inside hscalar f

/-- Any other object is read if the schema of further properties and the properties are. -/
theorem failsFor_withAdditional (h : v.IsJson) (hfields : IsFields v)
    (hadditional : ∀ a, v.additional? = some a → FailsFor (ofValue a) (Unread a) Printable)
    (hproperties : ∀ es, v.properties? = some es → FailsFor (ofProperties es)
      (fun f => ∃ w, w ∈ es.map Prod.snd ∧ Unread w f) ArePrintable) :
    FailsFor (match v.additional? with
      | some a => ofValue a >>= fun s => ofFields v (some s)
      | none => ofFields v none) (Unread v) Printable := by
  cases ha : v.additional? with
  | none =>
    refine FailsFor.congr (failsFor_ofFields h hfields (fun s hs => (nomatch hs)) hproperties)
      fun f => ?_
    refine Iff.trans ?_ (hfields.unread_iff f)
    rw [ha]
    exact (or_iff_right (not_exists.2 fun w hw => Option.not_mem_none w hw.1)).symm
  | some a =>
    refine FailsFor.congr ((hadditional a ha).bind fun s hs =>
      failsFor_ofFields h hfields (fun s' he => Option.some.inj he ▸ hs) hproperties) fun f => ?_
    refine Iff.trans ?_ (hfields.unread_iff f)
    rw [ha]
    simp only [Option.mem_def, Option.some.injEq, exists_eq_left']

/-! ### All of them -/

mutual

/-- A schema object from JSON is read, unless there is a stray format in it. -/
theorem failsFor_ofValue (v : Value) (h : v.IsJson) :
    FailsFor (ofValue v) (Unread v) Printable := by
  rw [ofValue_eq, h.isEndless, if_neg Bool.false_ne_true]
  cases hmap : v.isMap with
  | false =>
    have hscalar : v.isScalarSchema = false := by simp [Value.isScalarSchema, hmap]
    have hinside : v.schemasInside = [] := by simp [Value.schemasInside, hmap]
    exact failsFor_ok hscalar hinside (.primitive fun w hw => absurd hw List.not_mem_nil)
  | true =>
    rw [if_neg (by decide)]
    cases href : v.reference? with
    | some ref =>
      have hscalar : v.isScalarSchema = false := by simp [Value.isScalarSchema, href]
      have hinside : v.schemasInside = [] := by simp [Value.schemasInside, href]
      exact failsFor_ok hscalar hinside (.reference ref _)
    | none =>
      dsimp only
      by_cases harray : Value.primaryType (v.get? "type") = some "array"
      · rw [if_pos harray]
        refine failsFor_array hmap href harray fun items hitems => ?_
        have hsmaller := Value.sizeOf_get?_lt hitems
        exact failsFor_ofValue items (h.get? hitems)
      · rw [if_neg harray]
        cases hlit : v.literals? with
        | some values =>
          have hscalar : v.isScalarSchema = true := by
            simp [Value.isScalarSchema, hmap, href, harray, hlit]
          have hinside : v.schemasInside = [] := by
            simp [Value.schemasInside, hmap, href, harray, hlit]
          refine failsFor_scalar h hscalar hinside fun w hw => ?_
          exact h.list? (Option.filter_eq_some_iff.1 hlit).1 hw
        | none =>
          dsimp only
          cases hcomp : v.composition? with
          | some c =>
            have hsmaller : sizeOf c.2 < sizeOf v := Value.sizeOf_composition?_lt hcomp
            exact failsFor_composite hmap href harray hlit hcomp
              (failsFor_ofMembers c.2 fun w hw => h.composition? hcomp hw)
          | none =>
            refine failsFor_withAdditional h ⟨hmap, href, harray, hlit, hcomp⟩ (fun a ha => ?_)
              fun es hes => ?_
            · have hsmaller := Value.sizeOf_additional?_lt ha
              exact failsFor_ofValue a (h.get? (Option.filter_eq_some_iff.1 ha).1)
            · have hsmaller := Value.sizeOf_properties?_lt hes
              exact failsFor_ofProperties es fun e he => h.properties? hes he
termination_by sizeOf v

theorem failsFor_ofMembers (vs : List Value) (h : ∀ v, v ∈ vs → v.IsJson) :
    FailsFor (ofMembers vs) (fun f => ∃ w, w ∈ vs ∧ Unread w f)
      fun ms => ∀ m, m ∈ ms → m.Printable := by
  match vs with
  | [] =>
    rw [ofMembers]
    exact .of_ok (fun m hm => absurd hm List.not_mem_nil) fun f hf => FailsFor.exists_mem_nil hf
  | v :: rest =>
    rw [ofMembers]
    refine FailsFor.congr ((failsFor_ofValue v (h v List.mem_cons_self)).bind fun s hs =>
      (failsFor_ofMembers rest fun w hw => h w (List.mem_cons_of_mem _ hw)).map fun ms hms => ?_)
      fun f => FailsFor.exists_mem_cons
    exact List.forall_mem_cons.2 ⟨hs, hms⟩
termination_by sizeOf vs

theorem failsFor_ofProperties (es : List (Value × Value))
    (h : ∀ e, e ∈ es → (∃ s, e.1 = .str s) ∧ e.2.IsJson) :
    FailsFor (ofProperties es) (fun f => ∃ w, w ∈ es.map Prod.snd ∧ Unread w f) ArePrintable := by
  match es with
  | [] =>
    rw [ofProperties]
    exact .of_ok (fun p hp => absurd hp List.not_mem_nil) fun f hf => FailsFor.exists_mem_nil hf
  | (k, v) :: rest =>
    obtain ⟨hk, hv⟩ := h (k, v) List.mem_cons_self
    rw [ofProperties]
    refine FailsFor.congr ((failsFor_ofValue v hv).bind fun s hs =>
      (failsFor_ofProperties rest fun e he => h e (List.mem_cons_of_mem _ he)).map fun ps hps => ?_)
      fun f => FailsFor.exists_mem_cons
    exact List.forall_mem_cons.2 ⟨⟨hk, hs⟩, hps⟩
termination_by sizeOf es

end

end Schema

end TypedClients
