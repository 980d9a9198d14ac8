import TypedClients.Schema.Basic
import TypedClients.Value.AsText

/-!
# Schemas from document values

The keywords of a schema object are looked at in a fixed order, so that an object with several
of them always becomes the same kind of schema:

`$ref`, `type: array`, `enum`, `allOf`, `oneOf`, `anyOf`, `type: object` or `properties`,
`additionalProperties`, and a scalar otherwise.

Null may be admitted by `nullable`, by `x-nullable`, or by a list of types with `"null"` in
it. A value that is no object describes nothing. An object that describes itself inside itself
has no schema.

Mirrors `parse_schema`, `is_nullable`, `primary_type` and `_additional_properties`.
-/

namespace TypedClients

namespace Value

/-! ## Keywords of a schema object -/

/-- The list under a key. -/
def list? (v : Value) (key : String) : Option (List Value) := (v.get? key).bind items?

/-- Whether a schema object admits null (`is_nullable`). -/
def admitsNull (v : Value) : Bool :=
  v.isFlagged "nullable" || v.isFlagged "x-nullable" ||
    match v.list? "type" with
    | some types => types.any (·.isStr "null") && 1 < types.length
    | none => false

/-- The type that counts (`primary_type`): the first one of a list that is not `"null"`, if
there is one. -/
def primaryType (type : Option Value) : Option String :=
  match type.bind str?, type.bind items? with
  | some t, _ => some t
  | none, some types =>
    match types.findSome? fun t => t.str?.filter (· ≠ "null") with
    | some t => some t
    | none => if types.any (·.isStr "null") then some "null" else none
  | none, none => none

/-- The reference of a schema object. -/
def reference? (v : Value) : Option String := (v.get? "$ref").bind str?

/-- The literal values a schema object lists, if it lists any. -/
def literals? (v : Value) : Option (List Value) := (v.list? "enum").filter (!·.isEmpty)

/-- The first composition keyword that holds a list, with its members. -/
def composition? (v : Value) : Option (Composition × List Value) :=
  [Composition.allOf, .oneOf, .anyOf].findSome? fun mode => (v.list? mode.keyword).map (mode, ·)

/-- The entries under `properties`, if there is a map. -/
def properties? (v : Value) : Option (List (Value × Value)) := (v.get? "properties").bind entries?

/-- The schema under `additionalProperties`, if it says anything (`_additional_properties`). -/
def additional? (v : Value) : Option Value :=
  (v.get? "additionalProperties").filter fun a => a.isMap && a.isGiven

/-- Whether `additionalProperties` allows further properties. -/
def allowsAdditional (v : Value) : Bool :=
  match v.get? "additionalProperties" with
  | none => false
  | some a => !(a.same null || a.same (.bool false))

/-- The names under `required`. -/
def requiredNames (v : Value) : List String := ((v.list? "required").getD []).filterMap str?

theorem sizeOf_list?_lt {v : Value} {key : String} {xs : List Value} (h : v.list? key = some xs) :
    sizeOf xs < sizeOf v := by
  obtain ⟨w, hw, hx⟩ := Option.bind_eq_some_iff.1 h
  exact Nat.lt_trans (sizeOf_items?_lt hx) (sizeOf_get?_lt hw)

theorem sizeOf_composition?_lt {v : Value} {mode : Composition} {ms : List Value}
    (h : v.composition? = some (mode, ms)) : sizeOf ms < sizeOf v := by
  obtain ⟨m, _, hm⟩ := List.exists_of_findSome?_eq_some h
  obtain ⟨xs, hxs, he⟩ := Option.map_eq_some_iff.1 hm
  cases he
  exact sizeOf_list?_lt hxs

theorem sizeOf_properties?_lt {v : Value} {es : List (Value × Value)}
    (h : v.properties? = some es) : sizeOf es < sizeOf v := by
  obtain ⟨w, hw, he⟩ := Option.bind_eq_some_iff.1 h
  exact Nat.lt_trans (sizeOf_entries?_lt he) (sizeOf_get?_lt hw)

theorem sizeOf_additional?_lt {v a : Value} (h : v.additional? = some a) : sizeOf a < sizeOf v :=
  sizeOf_get?_lt (Option.filter_eq_some_iff.1 h).1

end Value

namespace Schema

/-- The optional text under a key of a model; any other value is refused. -/
def textField (model field : String) (v : Option Value) : Except Failure (Option String) :=
  match v with
  | none | some .null => .ok none
  | some v =>
    match v.asText with
    | .ok s => .ok (some s)
    | .error complaint => .error (.invalid ⟨model, [⟨[.field field], complaint⟩]⟩)

/-- A scalar schema. -/
def scalar (v : Value) (values : Option (List Value)) : Except Failure Schema := do
  let format ← textField "PrimitiveSchema" "format" (v.get? "format")
  return .primitive (Value.primaryType (v.get? "type")) format values v.admitsNull

mutual

/-- The schema that a document value describes (`parse_schema`). -/
def ofValue (v : Value) : Except Failure Schema :=
  if v.isEndless then .error (.mishap .tooDeep)
  else if !v.isMap then .ok untyped
  else
    let type := Value.primaryType (v.get? "type")
    match v.reference? with
    | some ref => .ok (.reference ref v.admitsNull)
    | none =>
      if type = some "array" then
        match _h : v.get? "items" with
        | none => .ok (.array untyped v.admitsNull)
        | some items => do return .array (← ofValue items) v.admitsNull
      else
        match v.literals? with
        | some values => scalar v (some values)
        | none =>
          match _h : v.composition? with
          | some (mode, members) => do return .composite mode (← ofMembers members) v.admitsNull
          | none => do
            let additional ← match _h : v.additional? with
              | some a => do pure (some (← ofValue a))
              | none => pure none
            if type = some "object" || v.has "properties" then
              match _h : v.properties? with
              | some entries => do
                let properties ← ofProperties entries
                match Value.keyIssues "properties" entries with
                | [] =>
                  return .object (Value.named properties) v.requiredNames additional v.admitsNull
                | issues => throw (.invalid ⟨"ObjectSchema", issues⟩)
              | none => return .dictionary v.requiredNames additional v.admitsNull
            else if v.allowsAdditional then return .dictionary [] additional v.admitsNull
            else scalar v none
termination_by sizeOf v
decreasing_by
  · exact Value.sizeOf_get?_lt _h
  · exact Value.sizeOf_composition?_lt _h
  · exact Value.sizeOf_properties?_lt _h
  · exact Value.sizeOf_additional?_lt _h

/-- The schemas of a list of values. -/
def ofMembers (vs : List Value) : Except Failure (List Schema) :=
  match vs with
  | [] => .ok []
  | v :: rest => do return (← ofValue v) :: (← ofMembers rest)
termination_by sizeOf vs

/-- The schemas of the entries of a map, under their keys. -/
def ofProperties (es : List (Value × Value)) : Except Failure (List (Value × Schema)) :=
  match es with
  | [] => .ok []
  | (k, v) :: rest => do return (k, ← ofValue v) :: (← ofProperties rest)
termination_by sizeOf es

end

end Schema

end TypedClients
