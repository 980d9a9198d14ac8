import TypedClients.Schema.Basic

/-!
# Operations

An `Operation` is one path with one method: what it takes in the path, the query and the
headers, the body it is sent, and the schemas of its answers, in one form for both families of
documents.

Mirrors `HTTPMethod`, `ParameterLocation`, `Parameter` and `OperationRecord`.
-/

namespace TypedClients

/-- The methods that become members of a client, in the order in which they are looked for
(`HTTPMethod`). -/
inductive Method
  | get
  | post
  | put
  | patch
  | delete
  deriving DecidableEq, Repr

namespace Method

/-- All methods, in order. -/
def all : List Method := [get, post, put, patch, delete]

/-- The word of a method. -/
def word : Method → String
  | get => "get"
  | post => "post"
  | put => "put"
  | patch => "patch"
  | delete => "delete"

/-- The word of a method in capitals. -/
def capitals : Method → String
  | get => "GET"
  | post => "POST"
  | put => "PUT"
  | patch => "PATCH"
  | delete => "DELETE"

/-- Whether a body is sent with a method (`HTTPMethod.carries_body`). -/
def carriesBody (m : Method) : Bool := m ≠ get

theorem mem_all (m : Method) : m ∈ all := by cases m <;> decide

end Method

/-- Where a parameter of an operation is sent (`ParameterLocation`). -/
inductive Location
  | path
  | query
  | header
  deriving DecidableEq, Repr

/-- The word of a location. -/
def Location.word : Location → String
  | path => "path"
  | query => "query"
  | header => "header"

/-- The location of a word. -/
def Location.ofWord? (w : String) : Option Location :=
  [Location.path, .query, .header].find? (·.word = w)

/-- A parameter of an operation. -/
structure Parameter where
  name : String
  location : Location
  required : Bool
  description : Option String
  schema : Schema

/-- One path with one method (`OperationRecord`). -/
structure Operation where
  path : String
  method : Method
  operationId : Option String
  summary : Option String
  description : Option String
  tags : List String
  pathParams : List Parameter
  queryParams : List Parameter
  headerParams : List Parameter
  requestBody : Option Schema
  responses : List (String × Schema)
  deprecated : Bool

namespace Operation

/-- The identity of an operation within a document. -/
def key (o : Operation) : String := o.method.capitals ++ ":" ++ o.path

/-- The schema of the answer with a status code. -/
def response? (o : Operation) (status : String) : Option Schema :=
  (o.responses.find? (·.1 = status)).map Prod.snd

end Operation

end TypedClients
