import TypedClients.Proofs.Migration.Documents

/-!
# Parameters and bodies of migrated operations

A parameter keeps its name and its place, and its schema is the one it had before, with the
references moved. What made up the body of an operation is left out of its parameters: it has
become the request body, which is read as the same schema.

* `parameters_arguments`: the parameters of an operation are those from before.
* `bodyOfParameters_payload`: the body is the schema under the request body.
-/

namespace TypedClients

open Value (str list map)

/-- A parameter with the references of its schema moved. -/
def Parameter.moved (p : Parameter) : Parameter := { p with schema := p.schema.moved }

namespace Migration

open Extraction (identity inlineKeywords isIdentifiable isIn isRequired isUsable location? nameOf
  parameterSchema parameters sameParameter schemaUnder)

/-! ## One parameter -/

theorem get?_parameter (p : Value) {key : String} (hschema : key ≠ "schema")
    (hitems : key ≠ "items") :
    (parameter p).get? key = p.get? key := by
  have hkeep : ((str key).isStr "schema" || (str key).isStr "items") = false := by
    rw [Bool.or_eq_false_iff]
    exact ⟨beq_eq_false_iff_ne.2 hschema, beq_eq_false_iff_ne.2 hitems⟩
  rw [parameter, Value.get?_mapFields, hkeep]
  exact Option.map_id'

theorem isMap_parameter (p : Value) : (parameter p).isMap = p.isMap := Value.isMap_mapFields _ p

theorem isUsable_parameter (p : Value) : isUsable (parameter p) = isUsable p := by
  rw [isUsable, isMap_parameter, get?_parameter p (by decide) (by decide), isUsable]

theorem reference?_parameter (p : Value) : (parameter p).reference? = p.reference? := by
  rw [Value.reference?, get?_parameter p (by decide) (by decide), Value.reference?]

theorem isIdentifiable_parameter (p : Value) : isIdentifiable (parameter p) = isIdentifiable p := by
  rw [isIdentifiable, identity, get?_parameter p (by decide) (by decide),
    get?_parameter p (by decide) (by decide), isIdentifiable, identity]

theorem location?_parameter (p : Value) : location? (parameter p) = location? p := by
  rw [location?, get?_parameter p (by decide) (by decide), location?]

theorem get?_of_isIn {place : String} {p : Value} (h : isIn place p = true) :
    p.get? "in" = some (str place) := by
  rw [isIn] at h
  cases hv : p.get? "in" with
  | none =>
    rw [hv] at h
    cases h
  | some v =>
    rw [hv] at h
    rw [Value.eq_of_isStr h]

/-- What is sent has no place among the arguments. -/
theorem location?_of_isPayload {p : Value} (h : isPayload p = true) : location? p = none := by
  rw [isPayload, Bool.or_eq_true] at h
  rcases h with h | h <;> rw [location?, get?_of_isIn h] <;> decide

theorem parameterSchema_eq (p : Value) : parameterSchema p = Schema.ofValue (schemaOf p) := by
  rw [parameterSchema, schemaOf, schemaUnder]
  cases (p.get? "schema").filter Value.isMap <;> rfl

theorem schemaUnder_parameter (p : Value) :
    schemaUnder "schema" (parameter p) = (schemaUnder "schema" p).map Value.moved := by
  have hget : (parameter p).get? "schema" = (p.get? "schema").map Value.moved := by
    rw [parameter, Value.get?_mapFields]
    rfl
  rw [schemaUnder, hget, schemaUnder]
  cases p.get? "schema" with
  | none => rfl
  | some s =>
    rw [Option.map_some, Option.filter_some, Option.filter_some, Value.isMap_moved]
    split <;> rfl

/-- A keyword on a parameter becomes what it would in a schema object. -/
theorem get?_parameter_inline (p : Value) {key : String} (h : key ∈ inlineKeywords) :
    (parameter p).get? key = (p.get? key).map (Value.Slot.of (str key)).moved := by
  rw [parameter, Value.get?_mapFields]
  simp only [inlineKeywords, List.mem_cons, List.not_mem_nil, or_false] at h
  rcases h with rfl | rfl | rfl | rfl | rfl | rfl <;> rfl

theorem schemaOf_parameter (p : Value) : schemaOf (parameter p) = (schemaOf p).moved := by
  rw [schemaOf, schemaUnder_parameter, schemaOf]
  cases schemaUnder "schema" p with
  | some s => rfl
  | none =>
    have hinline : (inlineKeywords.filterMap fun k => ((parameter p).get? k).map (str k, ·)) =
        (inlineKeywords.filterMap fun k => (p.get? k).map (str k, ·)).map fun e =>
          (e.1, (Value.Slot.of e.1).moved e.2) := by
      rw [List.map_filterMap]
      refine List.filterMap_congr fun k hk => ?_
      rw [get?_parameter_inline p hk, Option.map_map, Option.map_map]
      rfl
    have htype : (parameter p).has "type" = p.has "type" := by
      rw [Value.has, get?_parameter p (by decide) (by decide), Value.has]
    rw [Option.map_none, Option.getD_none, Option.getD_none, htype, hinline]
    dsimp only
    rw [Value.moved, Value.movedFields_eq_map]
    split
    · rfl
    · rw [List.map_append]
      rfl

theorem nameOf_parameter (p : Value) : nameOf (parameter p) = nameOf p := by
  rw [nameOf, get?_parameter p (by decide) (by decide), nameOf]

theorem isRequired_parameter (p : Value) : isRequired (parameter p) = isRequired p := by
  rw [isRequired, get?_parameter p (by decide) (by decide), isRequired]

theorem parameter_parameter (p : Value) (location : Location) :
    Extraction.parameter (parameter p) location =
      Parameter.moved <$> Extraction.parameter p location := by
  rw [Extraction.parameter, Extraction.parameter, parameterSchema_eq, schemaOf_parameter,
    Schema.ofValue_moved, ← parameterSchema_eq, bind_map_left, map_bind,
    get?_parameter p (by decide) (by decide), nameOf_parameter, isRequired_parameter]
  refine congrArg _ (funext fun s => ?_)
  rw [map_bind]
  rfl

/-! ## All parameters -/

/-- The arguments that parameters stand for are those from before; what is sent is none of
them. -/
theorem parameters_arguments (ps : List Value) :
    parameters (arguments ps) = List.map Parameter.moved <$> parameters ps := by
  unfold arguments
  induction ps with
  | nil => rfl
  | cons p rest ih =>
    cases hpayload : isPayload p with
    | true =>
      have hskip : parameters (p :: rest) = parameters rest := by
        rw [parameters, location?_of_isPayload hpayload]
      rw [List.filter_cons_of_neg (by simp [hpayload]), ih, hskip]
    | false =>
      rw [List.filter_cons_of_pos (by simp [hpayload]), List.map_cons, parameters, parameters,
        location?_parameter]
      cases location? p with
      | none => exact ih
      | some location =>
        dsimp only
        rw [parameter_parameter, bind_map_left, map_bind]
        refine congrArg _ (funext fun parsed => ?_)
        rw [ih, bind_map_left, map_bind]
        rfl

/-! ## Bodies -/

open Extraction (bodyOfParameters formProperties)

/-- Schemas that are read from schema objects, each from the one with its name. -/
def ReadFrom : Ordered Value → Ordered Schema → Prop :=
  List.Forall₂ fun e p => e.1 = p.1 ∧ Schema.ofValue e.2 = .ok p.2

theorem ReadFrom.put {t : Ordered Value} {ps : Ordered Schema} (h : ReadFrom t ps) {v : Value}
    {s : Schema} (hs : Schema.ofValue v = .ok s) (n : String) :
    ReadFrom (t.put n v) (ps.put n s) := by
  induction h with
  | nil => exact .cons ⟨rfl, hs⟩ .nil
  | @cons e p t ps hhead htail ih =>
    obtain ⟨name, w⟩ := e
    obtain ⟨name', s'⟩ := p
    obtain ⟨rfl, hw⟩ := hhead
    rw [Ordered.put, Ordered.put]
    split
    · exact .cons ⟨rfl, hs⟩ htail
    · exact .cons ⟨rfl, hw⟩ ih

theorem ReadFrom.formProperties {t : Ordered Value} {ps done : Ordered Schema} (h : ReadFrom t done)
    {fields : List Value} (hps : formProperties done fields = .ok ps) :
    ReadFrom (fields.foldl (fun t p => t.put (nameOf p) (schemaOf p)) t) ps := by
  induction fields generalizing t done with
  | nil =>
    cases hps
    exact h
  | cons p rest ih =>
    rw [Extraction.formProperties] at hps
    obtain ⟨s, hs, hps⟩ := bind_eq_ok.1 hps
    rw [parameterSchema_eq] at hs
    exact ih (h.put hs (nameOf p)) hps

theorem ReadFrom.ofProperties {t : Ordered Value} {ps : Ordered Schema} (h : ReadFrom t ps) :
    Schema.ofProperties (t.map fun e => (str e.1, e.2)) = .ok (ps.map fun e => (str e.1, e.2)) := by
  induction h with
  | nil => rw [List.map_nil, Schema.ofProperties]; rfl
  | @cons e p t ps hhead htail ih =>
    rw [List.map_cons, Schema.ofProperties, hhead.2, ih, hhead.1]
    rfl

theorem keyIssues_str {α : Type} (field : String) (t : Ordered α) :
    Value.keyIssues field (t.map fun e => (str e.1, e.2)) = [] := by
  rw [Value.keyIssues, List.filterMap_eq_nil_iff]
  intro e he
  obtain ⟨e', -, rfl⟩ := List.mem_map.1 he
  rfl

theorem named_str {α : Type} (t : Ordered α) :
    Value.named (t.map fun e => (str e.1, e.2)) = t := by
  have htext : Value.textKeyed (t.map fun e => (str e.1, e.2)) = t.map fun e => (str e.1, e.2) := by
    refine Value.textKeyed_eq_self fun e he => ?_
    obtain ⟨e', -, rfl⟩ := List.mem_map.1 he
    rfl
  rw [Value.named, htext, List.filterMap_map]
  exact List.filterMap_some

/-- The object of a form is read as the form fields are. -/
theorem ofValue_form {fields : List Value} {ps : Ordered Schema}
    (h : formProperties [] fields = .ok ps) : Schema.ofValue (form fields) =
      .ok (.object ps ((fields.filter isRequired).map nameOf) none false) := by
  have hproperties := (ReadFrom.formProperties (t := []) .nil h).ofProperties
  have hrequired : (form fields).requiredNames = (fields.filter isRequired).map nameOf := by
    have hlist : (form fields).list? "required" =
        some ((fields.filter isRequired).map fun p => str (nameOf p)) := rfl
    rw [Value.requiredNames, hlist, Option.getD_some, List.filterMap_map]
    exact congrFun List.filterMap_eq_map' _
  have hreference : (form fields).reference? = none := rfl
  have htype : Value.primaryType ((form fields).get? "type") = some "object" := rfl
  have hliterals : (form fields).literals? = none := rfl
  have hcomposition : (form fields).composition? = none := rfl
  have hadditional : (form fields).additional? = none := rfl
  have hentries : (form fields).properties? = some
      ((fields.foldl (fun (t : Ordered Value) p => t.put (nameOf p) (schemaOf p)) []).map
        fun e => (str e.1, e.2)) := rfl
  rw [Schema.ofValue_eq, hreference, htype, hliterals, hcomposition, hadditional]
  dsimp only
  rw [Schema.ofFields, htype, hentries, hrequired]
  dsimp only
  rw [hproperties, keyIssues_str]
  exact congrArg (fun properties => Except.ok (Schema.object properties
    ((fields.filter isRequired).map nameOf) none false)) (named_str ps)

/-- What is read as the body of an operation is what is read from the schema of its request
body. -/
theorem bodyOfParameters_payload {ps : List Value} {b : Option Schema}
    (h : bodyOfParameters ps = .ok b)
    (hbody : ∀ body, ps.find? (isIn "body") = some body → (schemaUnder "schema" body).isSome) :
    (∃ v s, payload? ps = some v ∧ v.isMap = true ∧ Schema.ofValue v = .ok s ∧ b = some s) ∨
      payload? ps = none ∧ b = none := by
  rw [bodyOfParameters] at h
  rw [payload?]
  cases hfind : ps.find? (isIn "body") with
  | some body =>
    rw [hfind] at h
    obtain ⟨s, hs, h⟩ := bind_eq_ok.1 h
    cases h
    obtain ⟨v, hv⟩ := Option.isSome_iff_exists.1 (hbody body hfind)
    obtain ⟨hget, hmap⟩ := Option.filter_eq_some_iff.1 hv
    rw [hget] at hs
    exact Or.inl ⟨v, s, hget, hmap, hs, rfl⟩
  | none =>
    rw [hfind] at h
    dsimp only at h ⊢
    split at h
    next hempty =>
      cases h
      exact Or.inr ⟨if_pos hempty, rfl⟩
    next hempty =>
      obtain ⟨properties, hproperties, h⟩ := bind_eq_ok.1 h
      cases h
      exact Or.inl ⟨_, _, if_neg hempty, rfl, ofValue_form hproperties, rfl⟩

end Migration

end TypedClients
