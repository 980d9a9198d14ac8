import TypedClients.Client.Module
import TypedClients.Layout.Preview
import TypedClients.Naming.Service
import TypedClients.Operation.Extraction
import TypedClients.Types.Table

/-!
# From a document to files

`Document.generate` turns a document into the files of its clients, without writing any: per
output folder a file of types and a client. All types are settled, in one table, before any
file is written down, so that every file sees the final names.

Mirrors `GenerationOptions`, `GeneratedFile`, `GroupOutput`, `GenerationOutput`, `generate`
and `_generate`. `_generate` is taken apart: `parts` is what comes before its table of types,
`types` the filling of that table and `folderOutputs` its last loop. `generate` refuses a
document when the stack runs out in a recursion; how deep that is depends on where it runs, so
it is a parameter here, the `limit`.
-/

namespace TypedClients

/-- How one document is turned into clients (`GenerationOptions`). -/
structure Options where
  serviceName : Option String
  transport : String
  rules : List FolderRule
  versions : List String
  window : Int
  deriving DecidableEq, Repr

/-- The options in force unless settings say otherwise. -/
def Options.default : Options :=
  ⟨none, ClientModule.defaultTransport, Layout.defaultRules, Naming.defaultVersionSegments,
    Naming.defaultWindow⟩

/-- How operations are named under options. -/
def Options.nameStyle (o : Options) : Endpoints.NameStyle := ⟨o.versions, o.window⟩

/-- A file to be written, named without its extension. -/
structure GeneratedFile where
  name : String
  body : String
  deriving DecidableEq, Repr

/-- The name of a file with its extension. -/
def GeneratedFile.filename (f : GeneratedFile) : String := f.name ++ ".ts"

/-- The name of the file of types in every folder. -/
def typesFileName : String := "types"

/-- The files of one folder (`GroupOutput`). -/
structure FolderOutput where
  folder : List String
  files : List GeneratedFile
  deriving DecidableEq, Repr

/-- The paths of the files of a folder. -/
def FolderOutput.paths (f : FolderOutput) : List String :=
  f.files.map fun file => Text.joinStrings "/" (f.folder ++ [file.filename])

/-- Everything that one document gives (`GenerationOutput`). -/
structure Output where
  serviceName : String
  family : Family
  operationCount : Int
  folders : List FolderOutput
  preview : String
  deriving DecidableEq, Repr

namespace Generation

/-- Whether no schema of a document is deeper than a limit. -/
def withinLimit (limit : Nat) (index : SchemaIndex) (os : List Operation) : Bool :=
  let parameters (o : Operation) := o.pathParams ++ o.queryParams ++ o.headerParams
  index.entries.all (fun e => e.2.depth ≤ limit) &&
    os.all fun o =>
      o.requestBody.all (·.depth ≤ limit) && o.responses.all (·.2.depth ≤ limit) &&
        (parameters o).all (·.schema.depth ≤ limit)

/-- A document taken apart: its schemas, its operations, and these in groups. -/
structure Parts where
  index : SchemaIndex
  operations : List Operation
  serviceName : String
  groups : List Group

/-- The parts of a document (`_generate` up to its table). There is room to follow schemas
that are no deeper than `limit`. -/
def parts (d : Document) (limit : Nat) (options : Options) : Checked Parts := do
  let index ← Checked.ofExcept (SchemaIndex.ofDocument d)
  let operations ← d.operations
  if !withinLimit limit index operations then throw (.mishap .tooDeep)
  let serviceName := Naming.serviceName d.info.title options.serviceName
  let groups := Group.ofOperations serviceName options.rules options.versions operations
  Checked.debug .generation (serviceName ++ ": " ++ Number.natText operations.length ++
    " operations in " ++ Number.natText groups.length ++ " groups, " ++
    Number.natText index.entries.length ++ " schemas")
  return { index, operations, serviceName, groups }

/-- The table with the types of all groups, in group order. -/
def addGroups (t : TypeTable) (index : SchemaIndex) (style : Endpoints.NameStyle) :
    List Group → Checked TypeTable
  | [] => return t
  | g :: rest => do addGroups (← t.addEndpoints index style g.operations) index style rest

/-- The tags of the types of a group's operations. -/
def sourcesOf (g : Group) : List String := g.operations.flatMap Endpoints.sourcesOf

/-- The table of all types of a document, and the tags of those of its schema definitions (the
table of `_generate`). -/
def types (p : Parts) (options : Options) : Checked (TypeTable × List String) := do
  let (t, schemaSources) ← TypeTable.empty.addDefinitions p.index
  let t ← addGroups t p.index options.nameStyle p.groups
  return (t, schemaSources)

/-- The files of a group. -/
def folderOutput (d : Document) (options : Options) (t : TypeTable) (schemaSources : List String)
    (g : Group) : Except Failure FolderOutput := do
  let selected := t.select (schemaSources ++ sourcesOf g)
  let client ← g.client t options.nameStyle
  return {
    folder := g.folder
    files := [
      ⟨typesFileName, GeneratedType.declarations selected⟩,
      ⟨client.name, client.text g.folder options.transport d.baseUrl⟩] }

/-- The files of groups (the last loop of `_generate`). -/
def folderOutputs (d : Document) (options : Options) (t : TypeTable) (schemaSources : List String) :
    List Group → Except Failure (List FolderOutput)
  | [] => .ok []
  | g :: rest => do
    return (← folderOutput d options t schemaSources g) ::
      (← folderOutputs d options t schemaSources rest)

end Generation

/-- The failure that generation reports: schemas that lie too deep inside one another are
refused. -/
def Generation.reported : Failure → Failure
  | .mishap .tooDeep => .refused .nestingTooDeep
  | f => f

/-- The files that a document gives, where there is room to follow schemas that are no deeper than
`limit`. -/
def Document.generate (d : Document) (limit : Nat) (options : Options) : Checked Output :=
  Checked.reporting Generation.reported do
    let p ← Generation.parts d limit options
    let (t, schemaSources) ← Generation.types p options
    let folders ← Checked.ofExcept (Generation.folderOutputs d options t schemaSources p.groups)
    return {
      serviceName := p.serviceName
      family := d.family
      operationCount := p.operations.length
      folders
      preview := Preview.text (folders.flatMap FolderOutput.paths) }

end TypedClients
