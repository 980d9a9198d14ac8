import TypedClients.Model.Fit
import TypedClients.Schema.Reader

/-!
# Schemas as data

A schema can be given as data, an object with its `kind` and the fields of that kind. A field
that is left out has its default value; a schema inside another one is read first.

Mirrors `PrimitiveSchema`, `ArraySchema`, `ObjectSchema`, `CompositeSchema` and
`ReferenceSchema`.
-/

namespace TypedClients.Schema

open Model (Fit withDefault required optional list flag text oneOf)

/-- A schema read as data: the fields of its kind around the schemas inside it. -/
def fields (kind : String) (v : Value) (items additional : Option Schema)
    (properties : Option (List (String × Schema))) (members : List Schema) :
    Except Failure Schema :=
  let nullable := withDefault v "nullable" false flag
  let strings := withDefault v "required" [] (list text)
  match kind with
  | "array" => Fit.toExcept "ArraySchema" <|
    array <$> (match items with
      | some s => .good s
      | none => (Fit.complain .missing).under (.field "items")) <*> nullable
  | "object" => Fit.toExcept "ObjectSchema" <|
    (fun (rs : List String) n =>
      match properties with
      | some ps => object ps rs additional n
      | none => dictionary rs additional n) <$> strings <*> nullable
  | "composite" => Fit.toExcept "CompositeSchema" <|
    (fun mode n => composite mode members n) <$>
      required v "mode" (oneOf [("allOf", .allOf), ("oneOf", .oneOf), ("anyOf", .anyOf)]) <*>
      nullable
  | "reference" => Fit.toExcept "ReferenceSchema" <|
    reference <$> required v "ref" text <*> nullable
  | _ => Fit.toExcept "PrimitiveSchema" <|
    primitive <$> withDefault v "type" none (optional text)
      <*> withDefault v "format" none (optional text)
      <*> withDefault v "enum_values" none (optional (list Fit.good)) <*> nullable

mutual

/-- The schema that a value is as data. -/
def ofModel (v : Value) : Except Failure Schema := do
  let items ← match _h : v.get? "items" with
    | some w => do pure (some (← ofModel w))
    | none => pure none
  let additional ← match _h : v.get? "additional_properties" with
    | some w => if w.isMap then do pure (some (← ofModel w)) else pure none
    | none => pure none
  let properties ← match _h : v.list? "properties" with
    | some ps => do pure (some (← propertiesOfModel ps))
    | none => pure none
  let members ← match _h : v.list? "members" with
    | some ms => membersOfModel ms
    | none => pure []
  fields (((v.get? "kind").map Value.display).getD "primitive") v items additional properties
    members
termination_by sizeOf v
decreasing_by
  · exact Value.sizeOf_list?_lt _h
  · exact Value.sizeOf_list?_lt _h
  · exact Value.sizeOf_get?_lt _h
  · exact Value.sizeOf_get?_lt _h

/-- The schemas of a list of values as data. -/
def membersOfModel (vs : List Value) : Except Failure (List Schema) :=
  match vs with
  | [] => .ok []
  | v :: rest => do return (← ofModel v) :: (← membersOfModel rest)
termination_by sizeOf vs

/-- The properties of a list of pairs of a name and a schema as data. -/
def propertiesOfModel (vs : List Value) : Except Failure (List (String × Schema)) :=
  match vs with
  | [] => .ok []
  | .list [.str name, v] :: rest => do return (name, ← ofModel v) :: (← propertiesOfModel rest)
  | _ :: rest => propertiesOfModel rest
termination_by sizeOf vs

end

end TypedClients.Schema
