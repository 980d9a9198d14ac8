import TypedClients.TypeText.OfOperation
import TypedClients.Types.Table

/-!
# A type for every schema definition

Definitions get their types in two rounds. The first one settles a name for every definition
from its body as written; the second one writes the bodies again with those names in the
references, so that a reference to a definition whose name got a number carries the number
too. A definition that is only a reference to another one is an alias: it has no type of its
own, and its name stands for the type at the end of its chain of references.

Mirrors `schema_source`, `synthesize_schema_types` and `_alias_target`. The three loops of
`synthesize_schema_types` are `draftNames`, `withAliases` and `registerAll`.
-/

namespace TypedClients

/-- The tag of the type of a schema definition (`schema_source`). -/
def schemaSource (definition : String) : String := "schema:" ++ definition

namespace TypeTable

/-- Registers a body and says so if the name had to be changed. -/
def register (t : TypeTable) (name body source : String) : Logged (String × TypeTable) := do
  let final := t.settledName name body
  if final ≠ name then
    Logged.debug .types ("Type name " ++ name ++ " taken by a different body; using " ++ final)
  return (final, t.add name body source)

end TypeTable

namespace Definitions

/-- Whether a schema is only a reference. -/
def isAlias : Schema → Bool
  | .reference _ _ => true
  | _ => false

/-- The definitions that get a type of their own, with a notice for each of the others. -/
def proper : List (String × Schema) → Logged (List (String × Schema))
  | [] => return []
  | (name, .reference ref _) :: rest => do
    Logged.debug .types ("Skipping alias definition " ++ name ++ " -> " ++ ref)
    proper rest
  | e :: rest => do return e :: (← proper rest)

/-- The names that definitions settle on when their bodies are written without a table of
names (the first loop of `synthesize_schema_types`). -/
def draftNames (draft : TypeTable) (names : Ordered String) :
    List (String × Schema) → Checked (Ordered String)
  | [] => return names
  | (name, s) :: rest => do
    let body ← s.rendered []
    let (final, draft) ← Checked.logged (draft.register (Naming.typeName name) body
      (schemaSource name))
    draftNames draft (names.put name final) rest

/-- The type name at the end of a chain of aliases (`_alias_target`); none if the chain leads
nowhere or into a cycle. `seen` holds the aliases passed so far. -/
def aliasTarget (index : SchemaIndex) (names : Ordered String) (seen : List String)
    (current : String) : Logged (Option String) :=
  match names.get? current with
  | some name => return some name
  | none =>
    match _h : index.lookup? current with
    | some (.reference ref _) =>
      if _hs : current ∈ seen then return none
      else aliasTarget index names (current :: seen) (Schema.refName ref)
    | some _ => return none
    | none => do
      discard <| index.resolve current
      return none
termination_by index.unseen seen
decreasing_by exact SchemaIndex.unseen_lt _h _hs

/-- The table of names with the aliases among some definitions added (the second loop of
`synthesize_schema_types`). -/
def withAliases (index : SchemaIndex) (names : Ordered String) :
    List (String × Schema) → Logged (Ordered String)
  | [] => return names
  | (name, _) :: rest => do
    if names.has name then withAliases index names rest
    else match ← aliasTarget index names [] name with
      | some target => withAliases index (names.put name target) rest
      | none => withAliases index names rest

/-- Registers the bodies of definitions, written with the table of names (the third loop of
`synthesize_schema_types`). The name of a definition is the one its body is registered under.
-/
def registerAll (t : TypeTable) : List (String × Schema) → Checked TypeTable
  | [] => return t
  | (name, s) :: rest => do
    let body ← s.rendered t.referenceNames
    let wanted := (t.referenceNames.get? name).getD (Naming.typeName name)
    let (final, t) ← Checked.logged (t.register wanted body (schemaSource name))
    registerAll { t with referenceNames := t.referenceNames.put name final } rest

end Definitions

/-- The table with a type for every definition, and the tags of these types
(`synthesize_schema_types`). -/
def TypeTable.addDefinitions (t : TypeTable) (index : SchemaIndex) :
    Checked (TypeTable × List String) := do
  let definitions ← Checked.logged (Definitions.proper index.entries)
  let names ← Definitions.draftNames .empty t.referenceNames definitions
  let names ← Checked.logged (Definitions.withAliases index names index.entries)
  let t ← Definitions.registerAll { t with referenceNames := names } definitions
  return (t, definitions.map fun e => schemaSource e.1)

end TypedClients
