import TypedClients.Document.Pointer
import TypedClients.Document.Basic
import TypedClients.Model.Fit
import TypedClients.Operation.Basic
import TypedClients.Ordered

/-!
# Operations of a document

Every path of a document gives one operation per method it describes, in path order and then
in the order of `Method.all`. Both families end in the same `Operation`:

* a request body is the `body` parameter, the `formData` parameters taken together as an
  object, or the content of `requestBody`;
* an answer is the `schema` or the `content` of a response;
* of a content table the JSON entry counts, or else the first one.

Parameters given for a path are defaults for its operations: one of the operation with the
same name and place takes precedence. What cannot be used is left out with a warning.

Mirrors `extract`, `_build_record`, `_collect_parameters`, `_merge_parameters`,
`_extract_parameter`, `_parameter_schema`, `_swagger2_request_body`, `_openapi3_request_body`,
`_extract_responses`, `_content_schema` and `_dereference`. The two loops of `extract`, over
paths and over methods, are `operationsOfPaths` and `operationsOfMethods`.
-/

namespace TypedClients.Extraction

open TypedClients.Value (isGiven)

/-! ## References outside of schemas -/

/-- A value, or what it refers to if it is a reference (`_dereference`); null and a warning if
that is not there. -/
def dereference (d : Document) (v : Value) : Checked Value :=
  match v.reference? with
  | none => return v
  | some ref =>
    match Pointer.resolve d.root ref with
    | .ok w => return w
    | .error (.refused cause) => do
      Checked.warn .extraction (cause.message ++ "; ignoring it")
      return .null
    | .error f => throw f

/-! ## Parameters -/

/-- Whether a value can be used as a parameter: it is an object with a name. -/
def isUsable (v : Value) : Bool := v.isMap && ((v.get? "name").any isGiven)

/-- The usable parameters of a list, with references followed. -/
def collectItems (d : Document) : List Value → Checked (List Value)
  | [] => return []
  | v :: rest => do
    let p ← dereference d v
    if isUsable p then return p :: (← collectItems d rest)
    else
      Checked.warn .extraction ("Skipping parameter without a name: " ++ p.inner)
      collectItems d rest

/-- The usable parameters of an optional list (`_collect_parameters`). -/
def collect (d : Document) (list : Option Value) : Checked (List Value) :=
  match list.bind Value.items? with
  | some items => collectItems d items
  | none => return []

/-- The name and the place of a parameter, which together identify it. -/
def identity (p : Value) : Value × Value :=
  ((p.get? "name").getD (.str ""), (p.get? "in").getD (.str ""))

/-- Whether two parameters have the same name and the same place. -/
def sameParameter (p q : Value) : Bool :=
  (identity p).1.same (identity q).1 && (identity p).2.same (identity q).2

/-- Whether a parameter can be identified: its name and its place are scalars. -/
def isIdentifiable (p : Value) : Bool := (identity p).1.isKey && (identity p).2.isKey

/-- The parameters of a path that the operation does not override, followed by its own
(`_merge_parameters`). -/
def merge (shared own : List Value) : Except Failure (List Value) :=
  if (own ++ shared).all isIdentifiable then
    .ok (shared.filter (fun p => !own.any (sameParameter p)) ++ own)
  else .error (.mishap .wrongType)

/-- The keywords of a schema that stand on a parameter itself. -/
def inlineKeywords : List String := ["type", "format", "enum", "items", "nullable", "x-nullable"]

/-- The schema of a parameter (`_parameter_schema`): under `schema`, or else spread over the
parameter, where the type is a string unless it says otherwise. -/
def parameterSchema (p : Value) : Except Failure Schema :=
  match (p.get? "schema").filter Value.isMap with
  | some schema => Schema.ofValue schema
  | none =>
    let inline := inlineKeywords.filterMap fun k => (p.get? k).map (Value.str k, ·)
    let typed := if p.has "type" then inline else inline ++ [(.str "type", .str "string")]
    Schema.ofValue (.map typed)

/-- The place of a parameter, if it is one that members take arguments for. -/
def location? (p : Value) : Option Location :=
  ((p.get? "in").bind Value.str?).bind Location.ofWord?

/-- Whether a parameter has a given place. -/
def isIn (place : String) (p : Value) : Bool := (p.get? "in").any (·.isStr place)

/-- The name of a parameter. -/
def nameOf (p : Value) : String := ((p.get? "name").map Value.display).getD ""

/-- Whether a parameter says that it is required. -/
def isRequired (p : Value) : Bool := (p.get? "required").any isGiven

/-- A parameter at a place (`_extract_parameter`). One in the path is always required. -/
def parameter (p : Value) (location : Location) : Except Failure Parameter := do
  let schema ← parameterSchema p
  let description ← Schema.textField "Parameter" "description" (p.get? "description")
  return {
    name := nameOf p
    location
    required := location = .path || isRequired p
    description
    schema }

/-- The parameters that members take arguments for. -/
def parameters : List Value → Except Failure (List Parameter)
  | [] => .ok []
  | p :: rest =>
    match location? p with
    | none => parameters rest
    | some location => do return (← parameter p location) :: (← parameters rest)

/-! ## Bodies and answers -/

/-- The form fields as properties of one object. -/
def formProperties : Ordered Schema → List Value → Except Failure (Ordered Schema)
  | done, [] => .ok done
  | done, p :: rest => do formProperties (done.put (nameOf p) (← parameterSchema p)) rest

/-- The request body that parameters describe (`_swagger2_request_body`). -/
def bodyOfParameters (ps : List Value) : Except Failure (Option Schema) :=
  match ps.find? (isIn "body") with
  | some body => do return some (← Schema.ofValue ((body.get? "schema").getD .null))
  | none =>
    let fields := ps.filter (isIn "formData")
    if fields.isEmpty then .ok none
    else do
      let properties ← formProperties [] fields
      return some (.object properties ((fields.filter isRequired).map nameOf) none false)

/-- The media type preferred in a content table. -/
def jsonMediaType : String := "application/json"

/-- The entry of a content table that counts: the JSON one unless it is null or missing, otherwise
the first one. -/
def preferredMedia (content : Value) : Option Value :=
  match (content.get? jsonMediaType).filter fun m => !m.same .null with
  | some media => some media
  | none => content.entries.head?.map Prod.snd

/-- The schema object of a value, under a key. -/
def schemaUnder (key : String) (v : Value) : Option Value := (v.get? key).filter Value.isMap

/-- The schema of a content table (`_content_schema`). -/
def contentSchema (content : Option Value) : Except Failure (Option Schema) :=
  match (content.bind preferredMedia).bind (schemaUnder "schema") with
  | some s => do return some (← Schema.ofValue s)
  | none => .ok none

/-- The request body under `requestBody` (`_openapi3_request_body`). -/
def bodyOfRequest (d : Document) (request : Option Value) : Checked (Option Schema) := do
  let body ← dereference d (request.getD .null)
  Checked.ofExcept (contentSchema (body.get? "content"))

/-- The schema of a response. -/
def responseSchema (d : Document) (response : Value) : Except Failure (Option Schema) :=
  if d.isSwagger2 then
    match schemaUnder "schema" response with
    | some s => do return some (← Schema.ofValue s)
    | none => .ok none
  else contentSchema (response.get? "content")

/-- The answers that declare a schema, by status code (`_extract_responses`). -/
def responsesFrom (d : Document) :
    Ordered Schema → List (Value × Value) → Checked (Ordered Schema)
  | done, [] => return done
  | done, (status, response) :: rest => do
    let r ← dereference d response
    match ← Checked.ofExcept (responseSchema d r) with
    | some s => responsesFrom d (done.put status.display s) rest
    | none => responsesFrom d done rest

/-! ## Operations -/

/-- The optional texts of an operation. -/
structure Texts where
  operationId : Option String
  summary : Option String
  description : Option String

/-- The optional texts of an operation; all that are no texts are reported together. -/
def texts (op : Value) : Except Failure Texts :=
  let read (key field : String) : Model.Fit (Option String) :=
    (Model.optional Model.text ((op.get? key).getD .null)).under (.field field)
  Model.Fit.toExcept "OperationRecord" <|
    Texts.mk <$> read "operationId" "operation_id" <*> read "summary" "summary"
      <*> read "description" "description"

/-- The operation that a method of a path describes, with its parameters merged
(`_build_record`). -/
def operation (d : Document) (path : String) (method : Method) (op : Value) (ps : List Value) :
    Checked Operation := do
  let parsed ← Checked.ofExcept (parameters ps)
  let requestBody ← if d.isSwagger2 then Checked.ofExcept (bodyOfParameters ps)
    else bodyOfRequest d (op.get? "requestBody")
  let responses ← responsesFrom d [] ((op.get? "responses").map Value.entries |>.getD [])
  let texts ← Checked.ofExcept (texts op)
  return {
    path
    method
    operationId := texts.operationId
    summary := texts.summary
    description := texts.description
    tags := ((op.list? "tags").getD []).map Value.display
    pathParams := parsed.filter (·.location = .path)
    queryParams := parsed.filter (·.location = .query)
    headerParams := parsed.filter (·.location = .header)
    requestBody
    responses
    deprecated := (op.get? "deprecated").any isGiven }

/-- The operations of some methods of a path. -/
def operationsOfMethods (d : Document) (path : String) (item : Value) (shared : List Value) :
    List Method → Checked (List Operation)
  | [] => return []
  | m :: rest =>
    match (item.get? m.word).filter Value.isMap with
    | none => operationsOfMethods d path item shared rest
    | some op => do
      let own ← collect d (op.get? "parameters")
      let merged ← Checked.ofExcept (merge shared own)
      let o ← operation d path m op merged
      return o :: (← operationsOfMethods d path item shared rest)

/-- The operations of some paths. -/
def operationsOfPaths (d : Document) : List (String × Value) → Checked (List Operation)
  | [] => return []
  | (path, item) :: rest =>
    if item.isMap then do
      let shared ← collect d (item.get? "parameters")
      let os ← operationsOfMethods d path item shared Method.all
      return os ++ (← operationsOfPaths d rest)
    else do
      Checked.warn .extraction ("Skipping path " ++ path ++ ": path item is not an object")
      operationsOfPaths d rest

end Extraction

/-- The operations of a document (`extract`). -/
def Document.operations (d : Document) : Checked (List Operation) := do
  let os ← Extraction.operationsOfPaths d d.paths
  Checked.debug .extraction ("Extracted " ++ Number.natText os.length ++ " operations from " ++
    Number.natText d.paths.length ++ " paths")
  return os

end TypedClients
