import TypedClients.Value.Basic
import TypedClients.Text.Pieces

/-!
# Schemas

A `Schema` is the shape a document gives to a value, in one form for all dialects. References
stay unresolved: they are looked up when a type is written, so that definitions may refer to
each other in cycles.

Mirrors `PrimitiveSchema`, `ArraySchema`, `ObjectSchema`, `CompositeSchema`, `ReferenceSchema`
and `CompositeMode`.
-/

namespace TypedClients

/-- The three ways to compose schemas (`CompositeMode`). -/
inductive Composition
  | allOf
  | oneOf
  | anyOf
  deriving DecidableEq, Repr

/-- The keyword of a composition. -/
def Composition.keyword : Composition → String
  | allOf => "allOf"
  | oneOf => "oneOf"
  | anyOf => "anyOf"

/-- The shape of a value (`PrimitiveSchema` to `ReferenceSchema`). Every schema may in
addition admit null. -/
inductive Schema where
  /-- A scalar of a named type, or one of some literal values. -/
  | primitive (typeName : Option String) (format : Option String) (values : Option (List Value))
      (nullable : Bool)
  /-- A list of items of one shape. -/
  | array (items : Schema) (nullable : Bool)
  /-- An object with declared properties, in document order. -/
  | object (properties : List (String × Schema)) (required : List String)
      (additional : Option Schema) (nullable : Bool)
  /-- An object used as a dictionary: no property is declared, all have one shape if it is
  given. -/
  | dictionary (required : List String) (additional : Option Schema) (nullable : Bool)
  /-- A composition of other schemas. -/
  | composite (mode : Composition) (members : List Schema) (nullable : Bool)
  /-- The schema found under a reference. -/
  | reference (ref : String) (nullable : Bool)
  deriving Inhabited

namespace Schema

/-- A schema that says nothing about the value. -/
def untyped : Schema := primitive none none none false

/-- A plain string. -/
def string : Schema := primitive (some "string") none none false

/-- Whether null is admitted by the schema's own marker. -/
def nullable : Schema → Bool
  | primitive _ _ _ n => n
  | array _ n => n
  | object _ _ _ n => n
  | dictionary _ _ n => n
  | composite _ _ n => n
  | reference _ n => n

/-- The name a reference points to (`ReferenceSchema.name`): what follows its last slash. -/
def refName (ref : String) : String := String.ofList (Text.afterLast '/' ref.toList)

/-! ## Nesting -/

mutual

/-- How many schemas lie inside one another. -/
def depth : Schema → Nat
  | primitive _ _ _ _ => 1
  | array items _ => items.depth + 1
  | object properties _ none _ => depthOfProperties properties + 1
  | object properties _ (some s) _ => max (depthOfProperties properties) s.depth + 1
  | dictionary _ none _ => 1
  | dictionary _ (some s) _ => s.depth + 1
  | composite _ members _ => depthOfMembers members + 1
  | reference _ _ => 1

/-- The greatest depth among schemas. -/
def depthOfMembers : List Schema → Nat
  | [] => 0
  | m :: ms => max m.depth (depthOfMembers ms)

/-- The greatest depth among properties. -/
def depthOfProperties : List (String × Schema) → Nat
  | [] => 0
  | (_, p) :: ps => max p.depth (depthOfProperties ps)

end

end Schema

end TypedClients
