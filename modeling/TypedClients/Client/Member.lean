import TypedClients.Client.PathExpression
import TypedClients.Types.Endpoints

/-!
# Members of a client

Each operation becomes an asynchronous member. Its arguments come in a fixed order: one per
placeholder of the path, then `data` for the body if one is sent, then `params` for the query
if there is one, then the options. The member hands them to the transport.

Mirrors `FunctionParam`, `ClientFunction`, `_doc_text`, `_doc_header`, `_param_doc`,
`_query_type`, `_body_lines` and `_synthesize_function`. The loops over path and query
parameters in `_synthesize_function` are `pathArguments` and `queryMembers`, so that what each
of them adds can be said on its own.
-/

namespace TypedClients

/-- An argument of a member (`FunctionParam`). -/
structure Argument where
  name : String
  type : String
  optional : Bool
  deriving DecidableEq, Repr

/-- An argument as it is declared (`FunctionParam.render`). -/
def Argument.text (a : Argument) : String :=
  a.name ++ (if a.optional then "?" else "") ++ ": " ++ a.type

/-- A member of a client (`ClientFunction`). -/
structure Member where
  name : String
  arguments : List Argument
  returnType : String
  bodyLines : List String
  docLines : List String
  deriving DecidableEq, Repr

/-- The arguments of a member as they are declared. -/
def Member.signature (m : Member) : String :=
  Text.joinStrings ", " (m.arguments.map Argument.text)

namespace Client

/-! ## Documentation -/

/-- A line of documentation that cannot end the comment it stands in. -/
def docLine (line : List Char) : String :=
  String.ofList (Text.replacePair '*' '/' ['*', '\\', '/'] (Text.trim line))

/-- The lines of a text as documentation (`_doc_text`). -/
def docText (text : String) : List String := (Text.lines (Text.trim text.toList)).map docLine

/-- A text that says something. -/
def said (text : Option String) : Option String := text.filter (· ≠ "")

/-- The documentation of an operation ahead of its arguments (`_doc_header`). The description
is left out if it repeats the summary. -/
def docHeader (o : Operation) : List String :=
  let summary := ((said o.summary).map docText).getD []
  let description :=
    match said o.description with
    | some d =>
      if o.summary = some d then []
      else (if summary.isEmpty then [] else [""]) ++ docText d
    | none => []
  summary ++ description ++ (if o.deprecated then ["@deprecated"] else [])

/-- The documentation of the argument for a placeholder (`_param_doc`). -/
def docArgument (argument : String) (p : Option Parameter) : String :=
  match p.bind fun p => said p.description with
  | some d => "@param " ++ argument ++ " - " ++ Text.joinStrings " " (docText d)
  | none => "@param " ++ argument

/-! ## Arguments -/

/-- The parameter declared for a placeholder, the last one of its name. -/
def declared? (o : Operation) (placeholder : String) : Option Parameter :=
  o.pathParams.reverse.find? (·.name = placeholder)

/-- The arguments for the placeholders of a path. -/
def pathArguments (o : Operation) (names : Ordered String) :
    List String → Except Failure (List Argument)
  | [] => .ok []
  | p :: rest => do
    let type ← match declared? o p with
      | some parameter => parameter.schema.render names
      | none => pure "string"
    return ⟨pathArgument p, type, false⟩ :: (← pathArguments o names rest)

/-- Whether a member takes a body. -/
def takesData (o : Operation) : Bool := o.requestBody.isSome && o.method.carriesBody

/-- The argument for the body. -/
def dataArguments (o : Operation) (t : TypeTable) : List Argument :=
  if takesData o then [⟨"data", (t.nameFor (requestSource o)).getD TypeText.unknown, false⟩] else []

/-- The members of the object type of query parameters. -/
def queryMembers (names : Ordered String) : List Parameter → Except Failure (List String)
  | [] => .ok []
  | p :: rest => do
    return TypeText.member (Naming.propertyKey p.name) p.required (← p.schema.render names) ::
      (← queryMembers names rest)

/-- The argument for the query, optional if every parameter is (`_query_type`). -/
def queryArguments (o : Operation) (names : Ordered String) : Except Failure (List Argument) := do
  if o.queryParams.isEmpty then return []
  else
    let members ← queryMembers names o.queryParams
    return [⟨"params", TypeText.braced members, o.queryParams.all fun p => !p.required⟩]

/-- The argument for the options of the transport. -/
def optionsArgument : Argument := ⟨"options", "RequestOptions", true⟩

/-! ## Bodies -/

/-- The type a member answers with. -/
def returnType (o : Operation) (t : TypeTable) : String :=
  (t.nameFor (responseSource o)).getD TypeText.any

/-- The lines of a member (`_body_lines`). -/
def bodyLines (o : Operation) (returnType : String) : List String :=
  let withQuery := !o.queryParams.isEmpty
  let options := if withQuery then "reqOptions" else "options"
  let body :=
    match o.method with
    | .get => ""
    | .delete => (if takesData o then "data" else "undefined") ++ ", "
    | _ => (if takesData o then "data" else "\x7b\x7d") ++ ", "
  (if withQuery then ["const reqOptions = \x7b ...options, params \x7d;"] else []) ++
    ["return this.client." ++ o.method.word ++ "<" ++ returnType ++ ">(" ++ pathExpression o.path ++
      ", " ++ body ++ options ++ ");"]

/-- The member of an operation (`_synthesize_function`). -/
def member (name : String) (o : Operation) (t : TypeTable) : Except Failure Member := do
  let placeholders := Naming.placeholders o.path
  let path ← pathArguments o t.referenceNames placeholders
  let query ← queryArguments o t.referenceNames
  let returns := returnType o t
  return {
    name
    arguments := path ++ dataArguments o t ++ query ++ [optionsArgument]
    returnType := returns
    bodyLines := bodyLines o returns
    docLines := docHeader o ++
      placeholders.map (fun p => docArgument (pathArgument p) (declared? o p)) ++
      (if takesData o then ["@param data - Request body"] else []) ++
      (if o.queryParams.isEmpty then [] else ["@param params - Query parameters"]) ++
      ["@param options - Request options"] }

end Client

end TypedClients
