import TypedClients.Naming.Suffix
import TypedClients.Ordered
import TypedClients.TypeText.Scan

/-!
# The table of generated types

One table holds all types of a document. Two registrations share a name only if their bodies
are the same text; a name that is taken by another body gets a number. Every registration
carries a tag that says what the type was made from, and the table remembers the final name of
each tag. A type whose body is a single object literal is declared as an interface, any other
type as an alias.

Mirrors `GeneratedType`, `TypeTable`, `declaration` and `render_type_declarations`.
-/

namespace TypedClients

/-- A type with its final name; `source` is the tag of its first registration. -/
structure GeneratedType where
  name : String
  body : String
  source : String
  deriving DecidableEq, Repr

/-- The names that clients import from the transport, which no generated type may have. -/
def transportNames : List String := ["BaseAPIClient", "RequestOptions", "APIResponseResult"]

/-- Types in the order of their registration, the final name of each tag, and the type name of
each schema definition. -/
structure TypeTable where
  types : List GeneratedType
  finalNames : Ordered String
  referenceNames : Ordered String

namespace TypeTable

/-- A table without types. -/
def empty : TypeTable := ⟨[], [], []⟩

/-- The type with a name. -/
def get? (t : TypeTable) (name : String) : Option GeneratedType :=
  t.types.find? (·.name = name)

/-- Whether a type has a name. -/
def contains (t : TypeTable) (name : String) : Bool := (t.get? name).isSome

/-- Whether a body may be registered under a name: the transport does not use the name, and no
type with another body has it. -/
def accepts (t : TypeTable) (body name : String) : Bool :=
  !transportNames.contains name &&
    match t.get? name with
    | none => true
    | some g => g.body = body

/-- The name under which a body is registered if it asks for a name. -/
def settledName (t : TypeTable) (name body : String) : String :=
  Naming.firstCandidate (t.accepts body) name (t.types.length + transportNames.length)

/-- The table with a body registered under its settled name. -/
def add (t : TypeTable) (name body source : String) : TypeTable :=
  let final := t.settledName name body
  { t with
    types := if t.contains final then t.types else t.types ++ [⟨final, body, source⟩]
    finalNames := t.finalNames.put source final }

/-- The final name of a tag (`TypeTable.name_for`). -/
def nameFor (t : TypeTable) (source : String) : Option String := t.finalNames.get? source

/-- The types that tags ended up with, once each and in table order. -/
def select (t : TypeTable) (sources : List String) : List GeneratedType :=
  let wanted := sources.filterMap t.nameFor
  t.types.filter fun g => wanted.contains g.name

end TypeTable

/-! ## Declarations -/

namespace GeneratedType

/-- The declaration of a type. -/
def declaration (g : GeneratedType) : String :=
  if TypeText.isObjectLiteral g.body.toList then "export interface " ++ g.name ++ " " ++ g.body
  else "export type " ++ g.name ++ " = " ++ g.body ++ ";"

/-- The declarations of types, a blank line after each (`render_type_declarations`). -/
def declarations (types : List GeneratedType) : String :=
  String.join (types.map fun g => g.declaration ++ "\n\n")

end GeneratedType

end TypedClients
