import TypedClients.Client.Member
import TypedClients.Client.Reference
import TypedClients.Layout.Folder

/-!
# Client modules

The operations of a group become the members of one client class. Members whose names collide are
numbered; only types that members mention are imported. `ClientModule.text` writes the module.

Mirrors `ClientModule`, `_unique`, `synthesize_client` and `render_client_module`.
`synthesize_client` asks `_unique` for one name after another and keeps a set of those that
are used; `distinctNames` hands that set down a list. `render_client_module` fills a template,
whose text is written out here.
-/

namespace TypedClients

/-- A client class with the types it imports. -/
structure ClientModule where
  name : String
  imports : List String
  members : List Member
  deriving DecidableEq, Repr

namespace Client

/-- The name of an operation's member. -/
def memberName (style : Endpoints.NameStyle) (o : Operation) : String :=
  Naming.operationName o.method.word o.path style.versions style.window

/-- Names made distinct (`_unique`, down a list): each is numbered if an earlier one is the
same. `taken` holds the names given so far. -/
def distinctNames (taken : List String) : List String → List String
  | [] => []
  | name :: rest =>
    let final := Naming.firstCandidate (fun n => !taken.contains n) name taken.length
    final :: distinctNames (final :: taken) rest

/-- The members of operations under given names. -/
def members (t : TypeTable) : List (String × Operation) → Except Failure (List Member)
  | [] => .ok []
  | (name, o) :: rest => do return (← member name o t) :: (← members t rest)

/-- The generated types that a member mentions in its arguments and its answer (the imports of
`synthesize_client`). -/
def memberMentions (t : TypeTable) (m : Member) : List String :=
  ((m.arguments.filter (·.name ≠ "options")).map Argument.type ++ [m.returnType]).flatMap
    (mentions t)

end Client

/-- The client of a group (`synthesize_client`). -/
def Group.client (g : Group) (t : TypeTable) (style : Endpoints.NameStyle) :
    Except Failure ClientModule := do
  let names := Client.distinctNames [] (g.operations.map (Client.memberName style))
  let members ← Client.members t (names.zip g.operations)
  return {
    name := g.clientName
    imports := Text.sortedNames (members.flatMap (Client.memberMentions t))
    members }

/-! ## Text -/

namespace Member

/-- A line inside a documentation comment. -/
def commentLine (line : String) : String :=
  "   *" ++ (if line = "" then "" else " " ++ line) ++ "\n"

/-- A member as it stands in its class, with a blank line ahead of it. -/
def text (m : Member) : String :=
  "\n  /**\n" ++ String.join (m.docLines.map commentLine) ++ "   */\n  " ++ m.name ++
    " = async (" ++ m.signature ++ "): Promise<APIResponseResult<" ++ m.returnType ++
    ">> => \x7b\n" ++ String.join (m.bodyLines.map fun line => "    " ++ line ++ "\n") ++
    "  \x7d;\n"

end Member

namespace ClientModule

/-- The import path of the transport unless settings name another one. -/
def defaultTransport : String := "../../../BaseAPIClient"

/-- The text of a client module (`render_client_module`). -/
def text (m : ClientModule) (folder : List String) (transport baseUrl : String) : String :=
  "import \x7b BaseAPIClient, RequestOptions, APIResponseResult \x7d from '" ++
    transport ++ "';\n" ++ (if m.imports.isEmpty then ""
      else "import \x7b " ++ Text.joinStrings ", " m.imports ++ " \x7d from './types';\n") ++
    "\n/**\n * " ++ Text.joinStrings "/" folder ++ " endpoints\n * Base URL: " ++ baseUrl ++
    "\n */\nexport class " ++ m.name ++
    " \x7b\n  constructor(private readonly client: BaseAPIClient) \x7b\x7d\n" ++
    String.join (m.members.map Member.text) ++ "\x7d\n"

end ClientModule

end TypedClients
