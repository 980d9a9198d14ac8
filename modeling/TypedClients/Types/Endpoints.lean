import TypedClients.Naming.Path
import TypedClients.Operation.Basic
import TypedClients.Text.Blank
import TypedClients.Types.Definitions

/-!
# A type for every request and answer

Each operation gets a type for the body it is sent, if it is sent one, and a type for what it
answers. The answer is the first one among the codes of success that has a schema; where there
is none, or where it is an object with no properties, the answer may be anything.

Mirrors `request_source`, `response_source`, `response_body` and `synthesize_endpoint_types`.
-/

namespace TypedClients

/-- The tag of the type an operation is sent (`request_source`). -/
def requestSource (o : Operation) : String := "endpoint:" ++ o.key ++ ":request"

/-- The tag of the type an operation answers (`response_source`). -/
def responseSource (o : Operation) : String := "endpoint:" ++ o.key ++ ":response"

namespace Endpoints

/-- The codes of success, in the order in which they are looked for. -/
def successCodes : List String := ["200", "201", "202", "204"]

/-- The schema of an operation's answer. -/
def successSchema? (o : Operation) : Option Schema := successCodes.findSome? o.response?

/-- Whether a type is an object literal without members. -/
def isEmptyObject (t : String) : Bool := Text.squeeze t.toList = ['\x7b', '\x7d']

/-- The type of an operation's answer (`response_body`). -/
def responseBody (o : Operation) (index : SchemaIndex) (names : Ordered String) : Checked String :=
  match successSchema? o with
  | none => return TypeText.any
  | some s => do
    let body ← s.renderOperation index names
    return if isEmptyObject body then TypeText.any else body

/-- How operations are named. -/
structure NameStyle where
  versions : List String
  window : Int

/-- Registers the type of an operation's request, if it has one. -/
def addRequest (t : TypeTable) (index : SchemaIndex) (style : NameStyle) (o : Operation) :
    Checked TypeTable :=
  match o.requestBody with
  | none => return t
  | some s => do
    let body ← s.renderOperation index t.referenceNames
    let name := Naming.requestName o.method.word o.path style.versions style.window
    return (← Checked.logged (t.register name body (requestSource o))).2

/-- Registers the type of an operation's answer. -/
def addResponse (t : TypeTable) (index : SchemaIndex) (style : NameStyle) (o : Operation) :
    Checked TypeTable := do
  let body ← responseBody o index t.referenceNames
  let name := Naming.responseName o.method.word o.path style.versions style.window
  return (← Checked.logged (t.register name body (responseSource o))).2

/-- The tags of the types of an operation. -/
def sourcesOf (o : Operation) : List String :=
  (if o.requestBody.isSome then [requestSource o] else []) ++ [responseSource o]

end Endpoints

open Endpoints in
/-- The table with the types of operations added, in operation order
(`synthesize_endpoint_types`). -/
def TypeTable.addEndpoints (t : TypeTable) (index : SchemaIndex) (style : NameStyle) :
    List Operation → Checked TypeTable
  | [] => return t
  | o :: rest => do
    let t ← addRequest t index style o
    let t ← addResponse t index style o
    addEndpoints t index style rest

end TypedClients
