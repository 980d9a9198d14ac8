import TypedClients.Proofs.Migration.References
import TypedClients.Proofs.Migration.Values

/-!
# Schema objects whose references are moved

References are moved in a document where the reader of schemas finds them: under `$ref`, and
in the schema objects under the keywords that hold such objects. Everything else, literal
values among it, is left alone. What is read from the result is the schema that was read
before, with its references moved.

* `get?_moved`: a field of the result is the field as it was, moved if it holds references.
* `Schema.ofValue_moved`: reading commutes with moving.
-/

namespace TypedClients

namespace Value

/-- A value under `$ref`, moved if it is a text. -/
def movedReference : Value → Value
  | str s => str (Migration.moved s)
  | v => v

/-- What a field of a schema object holds: a reference, a schema object, a map or a list of
schema objects, or nothing that has references. -/
inductive Slot
  | reference
  | schema
  | table
  | members
  | other
  deriving DecidableEq, Repr

/-- What the field under a key holds. -/
def Slot.of (key : Value) : Slot :=
  if key.isStr "$ref" then reference
  else if key.isStr "items" || key.isStr "additionalProperties" then schema
  else if key.isStr "properties" then table
  else if key.isStr "allOf" || key.isStr "oneOf" || key.isStr "anyOf" then members
  else other

mutual

/-- A schema object with its references moved. -/
def moved : Value → Value
  | map es => map (movedFields es)
  | knot id v => knot id v.moved
  | v => v

/-- The fields of a schema object with their references moved. -/
def movedFields : List (Value × Value) → List (Value × Value)
  | [] => []
  | (k, v) :: es =>
    (k, match Slot.of k with
      | .reference => v.movedReference
      | .schema => v.moved
      | .table => v.movedTable
      | .members => v.movedItems
      | .other => v) :: movedFields es

/-- A map of schema objects with their references moved. -/
def movedTable : Value → Value
  | map es => map (movedEntries es)
  | knot id v => knot id v.movedTable
  | v => v

/-- Schema objects under keys with their references moved. -/
def movedEntries : List (Value × Value) → List (Value × Value)
  | [] => []
  | (k, v) :: es => (k, v.moved) :: movedEntries es

/-- A list of schema objects with their references moved. -/
def movedItems : Value → Value
  | list vs => list (movedList vs)
  | knot id v => knot id v.movedItems
  | v => v

/-- Schema objects with their references moved. -/
def movedList : List Value → List Value
  | [] => []
  | v :: vs => v.moved :: movedList vs

end

/-- What becomes of a field. -/
def Slot.moved (v : Value) : Slot → Value
  | reference => v.movedReference
  | schema => v.moved
  | table => v.movedTable
  | members => v.movedItems
  | other => v

theorem movedFields_eq_map (es : List (Value × Value)) :
    movedFields es = es.map fun e => (e.1, (Slot.of e.1).moved e.2) := by
  induction es with
  | nil => rfl
  | cons e rest ih => rw [movedFields, ih]; rfl

theorem movedEntries_eq_map (es : List (Value × Value)) :
    movedEntries es = es.map fun e => (e.1, e.2.moved) := by
  induction es with
  | nil => rfl
  | cons e rest ih => rw [movedEntries, ih]; rfl

theorem movedList_eq_map (vs : List Value) : movedList vs = vs.map moved := by
  induction vs with
  | nil => rfl
  | cons v rest ih => rw [movedList, ih]; rfl

theorem moved_eq_mapFields (v : Value) :
    v.moved = v.mapFields fun k w => (Slot.of k).moved w := by
  induction v using inside_induction with
  | plain v h =>
    cases v with
    | map es => exact congrArg map (movedFields_eq_map es)
    | knot id w => exact absurd rfl (h id w)
    | _ => rfl
  | inside id v ih => exact congrArg (knot id) ih

theorem movedTable_eq_mapFields (v : Value) : v.movedTable = v.mapFields fun _ w => w.moved := by
  induction v using inside_induction with
  | plain v h =>
    cases v with
    | map es => exact congrArg map (movedEntries_eq_map es)
    | knot id w => exact absurd rfl (h id w)
    | _ => rfl
  | inside id v ih => exact congrArg (knot id) ih

theorem items?_movedItems (v : Value) : v.movedItems.items? = v.items?.map (List.map moved) := by
  induction v using inside_induction with
  | plain v h =>
    cases v with
    | list vs => rw [movedItems, movedList_eq_map, items?, items?, Option.map_some]
    | knot id w => exact absurd rfl (h id w)
    | _ => rfl
  | inside id v ih => exact ih

/-! ## What is read from a moved object -/

theorem isMap_moved (v : Value) : v.moved.isMap = v.isMap := by
  rw [moved_eq_mapFields, isMap_mapFields]

theorem isGiven_moved (v : Value) : v.moved.isGiven = v.isGiven := by
  rw [moved_eq_mapFields, isGiven_mapFields]

theorem isEndless_moved (v : Value) : v.moved.isEndless = v.isEndless := by
  cases v <;> rfl

theorem get?_moved (v : Value) (key : String) :
    v.moved.get? key = (v.get? key).map (Slot.of (str key)).moved := by
  rw [moved_eq_mapFields, get?_mapFields]

/-- A field without references stays as it is. -/
theorem get?_moved_of_other (v : Value) {key : String} (h : Slot.of (str key) = .other) :
    v.moved.get? key = v.get? key := by
  rw [get?_moved, h]
  exact Option.map_id'

theorem list?_moved_of_other (v : Value) {key : String} (h : Slot.of (str key) = .other) :
    v.moved.list? key = v.list? key := by
  rw [list?, get?_moved_of_other v h, list?]

theorem isFlagged_moved (v : Value) {key : String} (h : Slot.of (str key) = .other) :
    v.moved.isFlagged key = v.isFlagged key := by
  rw [isFlagged, get?_moved_of_other v h, isFlagged]

theorem admitsNull_moved (v : Value) : v.moved.admitsNull = v.admitsNull := by
  rw [admitsNull, isFlagged_moved v (by decide), isFlagged_moved v (by decide),
    list?_moved_of_other v (by decide), admitsNull]

theorem reference?_moved (v : Value) : v.moved.reference? = v.reference?.map Migration.moved := by
  have hslot : Slot.of (str "$ref") = .reference := by decide
  rw [reference?, get?_moved, hslot, reference?]
  cases v.get? "$ref" with
  | none => rfl
  | some w => cases w <;> rfl

theorem literals?_moved (v : Value) : v.moved.literals? = v.literals? := by
  rw [literals?, list?_moved_of_other v (by decide), literals?]

theorem requiredNames_moved (v : Value) : v.moved.requiredNames = v.requiredNames := by
  rw [requiredNames, list?_moved_of_other v (by decide), requiredNames]

theorem list?_moved_keyword (v : Value) (mode : Composition) :
    v.moved.list? mode.keyword = (v.list? mode.keyword).map (List.map moved) := by
  have hslot : Slot.of (str mode.keyword) = .members := by cases mode <;> decide
  rw [list?, get?_moved, hslot, list?]
  cases v.get? mode.keyword with
  | none => rfl
  | some w => exact items?_movedItems w

theorem composition?_moved (v : Value) :
    v.moved.composition? = v.composition?.map fun c => (c.1, c.2.map moved) := by
  rw [composition?, composition?, List.map_findSome?]
  refine congrArg (List.findSome? · _) (funext fun mode => ?_)
  rw [list?_moved_keyword, Function.comp_apply, Option.map_map, Option.map_map]
  rfl

theorem entries?_movedTable (v : Value) :
    v.movedTable.entries? = v.entries?.map (List.map fun e => (e.1, e.2.moved)) := by
  rw [movedTable_eq_mapFields, entries?, isMap_mapFields, entries_mapFields, entries?]
  split <;> rfl

theorem has_properties_moved (v : Value) : v.moved.has "properties" = v.has "properties" := by
  rw [has, get?_moved, Option.isSome_map, has]

theorem properties?_moved (v : Value) :
    v.moved.properties? = v.properties?.map (List.map fun e => (e.1, e.2.moved)) := by
  have hslot : Slot.of (str "properties") = .table := by decide
  rw [properties?, get?_moved, hslot, properties?]
  cases v.get? "properties" with
  | none => rfl
  | some w => exact entries?_movedTable w

theorem get?_additionalProperties_moved (v : Value) :
    v.moved.get? "additionalProperties" = (v.get? "additionalProperties").map moved := by
  have hslot : Slot.of (str "additionalProperties") = .schema := by decide
  rw [get?_moved, hslot]
  rfl

theorem additional?_moved (v : Value) : v.moved.additional? = v.additional?.map moved := by
  rw [additional?, get?_additionalProperties_moved, additional?]
  cases v.get? "additionalProperties" with
  | none => rfl
  | some a =>
    rw [Option.map_some, Option.filter_some, Option.filter_some, isMap_moved, isGiven_moved]
    split <;> rfl

theorem allowsAdditional_moved (v : Value) : v.moved.allowsAdditional = v.allowsAdditional := by
  rw [allowsAdditional, get?_additionalProperties_moved, allowsAdditional]
  cases v.get? "additionalProperties" with
  | none => rfl
  | some a => cases a <;> rfl

end Value

/-! ## Reading moved objects -/

namespace Schema

open Value (keyIssues named)

/-- What is read from an object that is no reference, list, enumeration or composition, once
the schema of further properties is known. -/
def ofFields (v : Value) (additional : Option Schema) : Except Failure Schema :=
  if Value.primaryType (v.get? "type") = some "object" || v.has "properties" then
    match v.properties? with
    | some entries => do
      let properties ← ofProperties entries
      match keyIssues "properties" entries with
      | [] => return .object (named properties) v.requiredNames additional v.admitsNull
      | issues => throw (.invalid ⟨"ObjectSchema", issues⟩)
    | none => return .dictionary v.requiredNames additional v.admitsNull
  else if v.allowsAdditional then return .dictionary [] additional v.admitsNull
  else scalar v none

/-- The branches of reading, without the proofs that it ends. -/
theorem ofValue_eq (v : Value) : ofValue v =
    if v.isEndless then .error (.mishap .tooDeep)
    else if !v.isMap then .ok untyped
    else match v.reference? with
      | some ref => .ok (.reference ref v.admitsNull)
      | none =>
        if Value.primaryType (v.get? "type") = some "array" then
          match v.get? "items" with
          | none => .ok (.array untyped v.admitsNull)
          | some items => return .array (← ofValue items) v.admitsNull
        else match v.literals? with
          | some values => scalar v (some values)
          | none => match v.composition? with
            | some c => return .composite c.1 (← ofMembers c.2) v.admitsNull
            | none => match v.additional? with
              | some a => ofValue a >>= fun s => ofFields v (some s)
              | none => ofFields v none := by
  -- the matches of `ofValue` keep equations for its termination, so they are split here one
  -- by one
  conv_lhs => rw [ofValue]
  refine ite_congr rfl (fun _ => rfl) fun _ => ite_congr rfl (fun _ => rfl) fun _ => ?_
  dsimp only
  cases v.reference? with
  | some ref => rfl
  | none =>
    refine ite_congr rfl (fun _ => ?_) fun _ => ?_
    · split <;> next h => rw [h]
    · cases v.literals? with
      | some values => rfl
      | none =>
        dsimp only
        split
        next h => rw [h]
        next h =>
          rw [h]
          split
          next h =>
            rw [h]
            refine congrArg _ (funext fun s => ?_)
            rw [pure_bind, ofFields]
            refine ite_congr rfl (fun _ => ?_) fun _ => rfl
            split <;> next h => exact h ▸ rfl
          next h =>
            rw [h, pure_bind]
            refine ite_congr rfl (fun _ => ?_) fun _ => rfl
            split <;> next h => exact h ▸ rfl

theorem scalar_moved (v : Value) (values : Option (List Value)) :
    scalar v.moved values = Schema.moved <$> scalar v values := by
  rw [scalar, scalar, Value.get?_moved_of_other v (by decide),
    Value.get?_moved_of_other v (by decide), Value.admitsNull_moved, map_bind]
  rfl

theorem movedProperties_eq_map (ps : List (String × Schema)) :
    movedProperties ps = ps.map fun p => (p.1, p.2.moved) := by
  induction ps with
  | nil => rfl
  | cons p rest ih => rw [movedProperties, ih]; rfl

theorem movedMembers_eq_map (ms : List Schema) : movedMembers ms = ms.map moved := by
  induction ms with
  | nil => rfl
  | cons m rest ih => rw [movedMembers, ih]; rfl

theorem ofFields_moved (v : Value) (additional : Option Schema)
    (hproperties : ∀ es, v.properties? = some es →
      ofProperties (es.map fun e => (e.1, e.2.moved)) =
        List.map (fun p => (p.1, p.2.moved)) <$> ofProperties es) :
    ofFields v.moved (additional.map moved) = Schema.moved <$> ofFields v additional := by
  rw [ofFields, ofFields, Value.get?_moved_of_other v (by decide), Value.has_properties_moved,
    Value.properties?_moved, Value.admitsNull_moved, Value.requiredNames_moved,
    Value.allowsAdditional_moved, scalar_moved]
  have hdictionary : ∀ required, dictionary required (additional.map moved) v.admitsNull =
      (dictionary required additional v.admitsNull).moved := by
    cases additional <;> exact fun _ => rfl
  split
  · cases hes : v.properties? with
    | none => exact congrArg Except.ok (hdictionary _)
    | some es =>
      have hkeys := Value.keyIssues_map "properties" (fun _ w => Value.moved w) es
      rw [Option.map_some]
      dsimp only
      rw [hproperties es hes, hkeys, bind_map_left, map_bind]
      refine congrArg _ (funext fun ps => ?_)
      cases keyIssues "properties" es with
      | cons issue issues => rfl
      | nil =>
        dsimp only
        rw [Value.named_map, ← movedProperties_eq_map]
        cases additional <;> rfl
  · split
    · exact congrArg Except.ok (hdictionary _)
    · rfl

mutual

/-- What is read from a moved object is what was read from it before, moved. -/
theorem ofValue_moved (v : Value) : ofValue v.moved = Schema.moved <$> ofValue v := by
  rw [ofValue_eq, ofValue_eq v, Value.isEndless_moved, Value.isMap_moved, Value.reference?_moved,
    Value.get?_moved_of_other v (by decide), Value.literals?_moved, Value.composition?_moved,
    Value.additional?_moved, Value.admitsNull_moved, Value.get?_moved]
  have hitems : Value.Slot.of (.str "items") = .schema := by decide
  rw [hitems]
  split
  · rfl
  split
  · rfl
  cases v.reference? with
  | some ref => rfl
  | none =>
    dsimp only [Option.map_none]
    split
    · cases h : v.get? "items" with
      | none => rfl
      | some items =>
        have hsmaller := Value.sizeOf_get?_lt h
        dsimp only [Option.map_some, Value.Slot.moved]
        rw [ofValue_moved items, bind_map_left, map_bind]
        rfl
    · cases v.literals? with
      | some values => exact scalar_moved v _
      | none =>
        dsimp only
        cases h : v.composition? with
        | some c =>
          have hsmaller : sizeOf c.2 < sizeOf v := Value.sizeOf_composition?_lt h
          dsimp only [Option.map_some]
          rw [ofMembers_moved c.2, bind_map_left, map_bind]
          refine congrArg _ (funext fun ms => ?_)
          rw [← movedMembers_eq_map]
          rfl
        | none =>
          have hproperties : ∀ es, v.properties? = some es →
              ofProperties (es.map fun e => (e.1, e.2.moved)) =
                List.map (fun p => (p.1, p.2.moved)) <$> ofProperties es := by
            intro es hes
            have hsmaller := Value.sizeOf_properties?_lt hes
            exact ofProperties_moved es
          dsimp only [Option.map_none]
          cases h : v.additional? with
          | none => exact ofFields_moved v none hproperties
          | some a =>
            have hsmaller := Value.sizeOf_additional?_lt h
            dsimp only [Option.map_some]
            rw [ofValue_moved a, bind_map_left, map_bind]
            exact congrArg _ (funext fun s => ofFields_moved v (some s) hproperties)
termination_by sizeOf v

theorem ofMembers_moved (vs : List Value) :
    ofMembers (vs.map Value.moved) = List.map Schema.moved <$> ofMembers vs := by
  match vs with
  | [] => rw [List.map_nil, ofMembers]; rfl
  | v :: rest =>
    rw [List.map_cons, ofMembers, ofMembers, ofValue_moved v, ofMembers_moved rest, bind_map_left,
      map_bind]
    refine congrArg _ (funext fun s => ?_)
    rw [bind_map_left, map_bind]
    rfl
termination_by sizeOf vs

theorem ofProperties_moved (es : List (Value × Value)) :
    ofProperties (es.map fun e => (e.1, e.2.moved)) =
      List.map (fun p => (p.1, p.2.moved)) <$> ofProperties es := by
  match es with
  | [] => rw [List.map_nil, ofProperties]; rfl
  | (k, v) :: rest =>
    rw [List.map_cons, ofProperties, ofProperties, ofValue_moved v, ofProperties_moved rest,
      bind_map_left, map_bind]
    refine congrArg _ (funext fun s => ?_)
    rw [bind_map_left, map_bind]
    rfl
termination_by sizeOf es

end

end Schema

end TypedClients
