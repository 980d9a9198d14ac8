import TypedClients.Json.Printer
import TypedClients.Naming.Identifier
import TypedClients.Ordered
import TypedClients.Report.Log
import TypedClients.TypeText.Operators

/-!
# The type expression of a schema

Every schema is written as a type; references are written as type names, so that definitions
may refer to each other in cycles. The names come from a table; a definition that is not in it
is named after itself.

Writing fails only for a literal value that has no JSON form.

Mirrors `render_schema`, `reference_type_name`, `_render_primitive`, `_render_object` and
`_literal`.
-/

namespace TypedClients

open TypeText (arrayOf compose withNull braced member unknown)

namespace Schema

/-- The types that the types of a schema are written as. -/
def scalarNames : List (String × String) :=
  [("string", "string"), ("integer", "number"), ("number", "number"), ("boolean", "boolean"),
   ("null", "null"), ("file", "File")]

/-- The type that a type of a schema is written as (`_render_primitive`). -/
def scalarName (type : Option String) : String :=
  match scalarNames.find? (some ·.1 = type) with
  | some (_, name) => name
  | none => unknown

/-- A literal value as a type (`_literal`): a string in single quotes, any other value as
JSON. -/
def literal (v : Value) : Except Failure String :=
  match v with
  | .str s => .ok (Naming.singleQuoted s)
  | v =>
    match Json.compact v with
    | .ok text => .ok text
    | .error m => .error (.mishap m)

/-- The type name that a reference is written as (`reference_type_name`). -/
def referenceName (names : Ordered String) (ref : String) : String :=
  (names.get? (refName ref)).getD (Naming.typeName (refName ref))

mutual

/-- The type expression of a schema (`render_schema`). -/
def render (names : Ordered String) : Schema → Except Failure String
  | primitive type _ values n =>
    match values with
    | none | some [] => .ok (withNull n (scalarName type))
    | some vs => do return withNull n (Text.joinStrings " | " (← vs.mapM literal))
  | array items n => do return withNull n (arrayOf (← items.render names))
  | object [] _ _ n => .ok (withNull n "\x7b\x7d")
  | object (p :: ps) required _ n => do
    return withNull n (braced (← renderProperties names required (p :: ps)))
  | dictionary _ none n => .ok (withNull n ("Record<string, " ++ unknown ++ ">"))
  | dictionary _ (some s) n => do
    return withNull n ("Record<string, " ++ (← s.render names) ++ ">")
  | composite mode members n => do return withNull n (compose mode (← renderMembers names members))
  | reference ref n => .ok (withNull n (referenceName names ref))

/-- The type expressions of schemas. -/
def renderMembers (names : Ordered String) : List Schema → Except Failure (List String)
  | [] => .ok []
  | m :: ms => do return (← m.render names) :: (← renderMembers names ms)

/-- The members of an object literal (`_render_object`). -/
def renderProperties (names : Ordered String) (required : List String) :
    List (String × Schema) → Except Failure (List String)
  | [] => .ok []
  | (name, p) :: ps => do
    return member (Naming.propertyKey name) (required.contains name) (← p.render names) ::
      (← renderProperties names required ps)

end

end Schema

end TypedClients
