import TypedClients.Report.Log
import TypedClients.Schema.Reader
import TypedClients.Text.Pieces

/-!
# API documents

A `Document` is a decoded API description of either family with its parts in their places: the
path table, the schema definitions, the base URL and the title block. `Document.ofValue` finds
the family from the version marker and refuses what is not of the required shape.

Mirrors `SpecVersion`, `detect_version`, `ApiInfo`, `Document`, `_base_url`, `_optional_str`
and `load_document`.
-/

namespace TypedClients

/-- The two families of API documents (`SpecVersion`). -/
inductive Family
  | swagger2
  | openapi3
  deriving DecidableEq, Repr

namespace Family

/-- The name of a family. -/
def name : Family → String
  | swagger2 => "2.0"
  | openapi3 => "3.x"

/-- How references to schema definitions begin (`Document.schema_ref_prefix`). -/
def schemaPrefix : Family → String
  | swagger2 => "#/definitions/"
  | openapi3 => "#/components/schemas/"

/-- The family that a version marker names (`detect_version`). Only an object can hold a
marker. -/
def ofValue (root : Value) : Except Failure Family :=
  if !root.isMap then .error (.mishap .missingAttribute) else
  let marker (key : String) := (root.get? key).filter fun v => !v.same .null
  let swagger := marker "swagger"
  let openapi := marker "openapi"
  if swagger.any (·.display = "2.0") then .ok swagger2
  else if openapi.any fun v => "3.".toList.isPrefixOf v.display.toList then .ok openapi3
  else match swagger.or openapi with
    | none => .error (.refused .versionMissing)
    | some found => .error (.refused (.versionUnsupported found.display))

end Family

/-- What a document says about itself (`ApiInfo`). -/
structure Info where
  title : Option String
  version : Option String
  description : Option String
  deriving DecidableEq, Repr

/-- An API document. -/
structure Document where
  family : Family
  versionText : String
  info : Info
  paths : List (String × Value)
  definitions : List (String × Value)
  baseUrl : String
  root : Value

/-- The base URL of documents that name none. -/
def defaultBaseUrl : String := "https://api.example.com"

namespace Document

/-- A text without the slashes at its end. -/
def dropTrailingSlashes (s : String) : String :=
  String.ofList (s.toList.reverse.dropWhile (· = '/')).reverse

/-- The first scheme, of a list of schemes or of a text. -/
def firstScheme (schemes : Value) : Except Failure String :=
  match schemes with
  | .knot _ v => firstScheme v
  | .list (s :: _) => .ok s.display
  | .list [] => .error (.mishap .missingIndex)
  | .bytes (b :: _) => .ok (Number.natText b.toNat)
  | .bytes [] => .error (.mishap .missingIndex)
  | .str s => match s.toList with
    | c :: _ => .ok (String.ofList [c])
    | [] => .error (.mishap .missingIndex)
  | .map es => match es.find? fun e => e.1.same (.int 0) with
    | some (_, v) => .ok v.display
    | none => .error (.mishap .missingKey)
  | _ => .error (.mishap .wrongType)

/-- A field that counts as given (`_optional_str`). -/
def given? (root : Value) (key : String) : Option Value := (root.get? key).filter (·.isGiven)

/-- The base URL a document declares, by host, base path and scheme or by its first server
(`_base_url`). -/
def baseUrlOf (root : Value) : Family → Except Failure String
  | .swagger2 =>
    match given? root "host" with
    | none => .ok defaultBaseUrl
    | some host => do
      let schemes := (given? root "schemes").getD (.list [.str "https"])
      let basePath := ((given? root "basePath").map Value.display).getD ""
      return dropTrailingSlashes ((← firstScheme schemes) ++ "://" ++ host.display ++ basePath)
  | .openapi3 =>
    match (root.get? "servers").bind Value.items? with
    | some (server :: _) =>
      match server.get? "url" with
      | some (.str url) => .ok (if url.isEmpty then defaultBaseUrl else dropTrailingSlashes url)
      | _ => .ok defaultBaseUrl
    | _ => .ok defaultBaseUrl

/-- The entries of a field that may be left out but must be an object otherwise. -/
def table (cause : Cause) (v : Option Value) : Except Failure (List (Value × Value)) :=
  match v.filter (·.isGiven) with
  | none => .ok []
  | some v => v.entries?.elim (.error (.refused cause)) .ok

/-- The schema definitions of a document, wherever its family keeps them. -/
def definitionsOf (root : Value) : Family → Option Value
  | .swagger2 => root.get? "definitions"
  | .openapi3 => (root.get? "components").bind (·.get? "schemas")

/-- The title block of a document. Its fields are texts, whatever kind of value they are. -/
def infoOf (root : Value) : Info :=
  let field (key : String) : Option String :=
    (((root.get? "info").bind (·.get? key)).filter fun v => !v.same .null).map Value.display
  ⟨field "title", field "version", field "description"⟩

/-- The document that a decoded value is. -/
def ofValue (root : Value) : Except Failure Document := do
  if !root.isMap then throw (.refused (.notAnObject root.kindName))
  let family ← Family.ofValue root
  let paths ← table .pathsNotAnObject (root.get? "paths")
  let definitions ← table .definitionsNotAnObject (definitionsOf root family)
  let baseUrl ← baseUrlOf root family
  let marker := match family with
    | .swagger2 => root.get? "swagger"
    | .openapi3 => root.get? "openapi"
  let issues := Value.keyIssues "paths" paths ++ Value.keyIssues "definitions" definitions ++
    Value.keyIssues "raw" root.entries
  if issues ≠ [] then throw (.invalid ⟨"Document", issues⟩)
  return {
    family
    versionText := (marker.map Value.display).getD ""
    info := infoOf root
    paths := Value.named paths
    definitions := Value.named definitions
    baseUrl
    root := .map (Value.textKeyed root.entries) }

/-- The document that a decoded value is, with a notice of its size (`load_document`). -/
def load (root : Value) : Checked Document := do
  let d ← Checked.ofExcept (ofValue root)
  Checked.debug .document ("Loaded " ++ d.versionText ++ " document with " ++
    Number.natText d.paths.length ++ " paths and " ++ Number.natText d.definitions.length ++
    " schemas")
  return d

/-- Whether a document is of the older family. -/
def isSwagger2 (d : Document) : Bool := d.family = .swagger2

end Document

end TypedClients
