import TypedClients.Document.Basic

/-!
# The schemas of a document by reference

Each definition can be looked up under its bare name and under its full reference. Where two
definitions compete for one key, the later one in the document wins.

* `lookup?_eq_some`: what a lookup finds is the schema of a definition with that key.

Mirrors `SchemaIndex`.
-/

namespace TypedClients

/-- The schemas of a document, in document order. -/
structure SchemaIndex where
  /-- How full references begin. -/
  base : String
  entries : List (String × Schema)

namespace SchemaIndex

/-- Whether a reference is one of the two keys of a definition. -/
def names (index : SchemaIndex) (definition ref : String) : Bool :=
  definition == ref || index.base ++ definition == ref

/-- The schema under a reference. -/
def lookup? (index : SchemaIndex) (ref : String) : Option Schema :=
  (index.entries.reverse.find? fun e => index.names e.1 ref).map Prod.snd

/-- The schema under a reference, with a notice if there is none. -/
def resolve (index : SchemaIndex) (ref : String) : Logged (Option Schema) := do
  match index.lookup? ref with
  | some s => return some s
  | none =>
    Logged.debug .document ("Unresolved schema reference " ++ ref)
    return none

/-- The schema under a reference that must be there. -/
def require (index : SchemaIndex) (ref : String) : Except Failure Schema :=
  match index.lookup? ref with
  | some s => .ok s
  | none => .error (.refused (.unresolvedReference ref))

/-- The schemas of definitions, in their order. -/
def entriesOf : List (String × Value) → Except Failure (List (String × Schema))
  | [] => .ok []
  | (name, v) :: rest => do return (name, ← Schema.ofValue v) :: (← entriesOf rest)

/-- The index of a document. -/
def ofDocument (d : Document) : Except Failure SchemaIndex := do
  return ⟨d.family.schemaPrefix, ← entriesOf d.definitions⟩

theorem lookup?_eq_some {index : SchemaIndex} {ref : String} {s : Schema}
    (h : index.lookup? ref = some s) :
    ∃ name, (name, s) ∈ index.entries ∧ index.names name ref = true := by
  obtain ⟨⟨name, s'⟩, hf, rfl⟩ := Option.map_eq_some_iff.1 h
  exact ⟨name, List.mem_reverse.1 (List.mem_of_find?_eq_some hf), by
    simpa using List.find?_some hf⟩

end SchemaIndex

end TypedClients
