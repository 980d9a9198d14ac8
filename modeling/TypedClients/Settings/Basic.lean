import TypedClients.Generation
import TypedClients.Model.Fit

/-!
# Settings

What a project may set: where its documents are, where the clients go and how they are named.
Settings are read from a decoded settings file, in which every field but the location of a
source may be left out.

Mirrors `SourceType`, `SourceConfig`, `GeneratorConfig` and `sample_config`.
-/

namespace TypedClients

/-- Where the document of a source comes from. -/
inductive SourceType
  | file
  | url
  deriving DecidableEq, Repr

/-- The word of a source type. -/
def SourceType.word : SourceType → String
  | file => "file"
  | url => "url"

/-- A document, or a directory of documents, to make clients of (`SourceConfig`). -/
structure Source where
  type : SourceType
  location : String
  serviceName : Option String
  outputDir : Option String
  skip : Bool
  deriving DecidableEq, Repr

/-- The settings of a project (`GeneratorConfig`). -/
structure Settings where
  outputDir : String
  sources : List Source
  transport : String
  cleanOutput : Bool
  parallel : Bool
  rules : List FolderRule
  versions : List String
  window : Int
  deriving DecidableEq, Repr

/-- The settings in force where nothing is set. -/
def Settings.default : Settings where
  outputDir := "src/clients"
  sources := []
  transport := ClientModule.defaultTransport
  cleanOutput := true
  parallel := false
  rules := Layout.defaultRules
  versions := Naming.defaultVersionSegments
  window := Naming.defaultWindow

/-- The options for a document under settings (`GeneratorConfig.generation_options`). -/
def Settings.options (s : Settings) (serviceName : Option String) : Options where
  serviceName
  transport := s.transport
  rules := s.rules
  versions := s.versions
  window := s.window

/-! ## Reading -/

namespace Model

/-- A folder rule. -/
def folderRule : Value → Fit FolderRule :=
  object fun v => FolderRule.mk <$> required v "match" text <*> required v "folder" text

/-- The least number of segments that may name a resource. -/
def leastWindow : Int := 1

/-- The options for a document. -/
def options : Value → Fit Options :=
  object fun v =>
    let d := Options.default
    Options.mk <$> withDefault v "service_name_override" d.serviceName (optional text)
      <*> withDefault v "transport_import_path" d.transport text
      <*> withDefault v "folder_rules" d.rules (list folderRule)
      <*> withDefault v "version_segments" d.versions (list text)
      <*> withDefault v "resource_window" d.window (integerFrom leastWindow)

/-- A source. -/
def source : Value → Fit Source :=
  object fun v =>
    Source.mk <$> withDefault v "type" .file (oneOf [("file", .file), ("url", .url)])
      <*> required v "source" text
      <*> withDefault v "service_name" none (optional text)
      <*> withDefault v "output_dir" none (optional text)
      <*> withDefault v "skip" false flag

/-- Settings. -/
def settings : Value → Fit Settings :=
  object fun v =>
    let d := Settings.default
    Settings.mk <$> withDefault v "output_dir" d.outputDir text
      <*> withDefault v "sources" d.sources (list source)
      <*> withDefault v "transport_import_path" d.transport text
      <*> withDefault v "clean_output" d.cleanOutput flag
      <*> withDefault v "parallel" d.parallel flag
      <*> withDefault v "folder_rules" d.rules (list folderRule)
      <*> withDefault v "version_segments" d.versions (list text)
      <*> withDefault v "resource_window" d.window (integerFrom leastWindow)

end Model

/-- The folder rule that a decoded value is. -/
def FolderRule.ofValue (v : Value) : Except Failure FolderRule :=
  (Model.folderRule v).toExcept "FolderRule"

/-- The options that a decoded value is. -/
def Options.ofValue (v : Value) : Except Failure Options :=
  (Model.options v).toExcept "GenerationOptions"

/-- The source that a decoded value is. -/
def Source.ofValue (v : Value) : Except Failure Source := (Model.source v).toExcept "SourceConfig"

/-- The settings that a decoded value is. -/
def Settings.ofValue (v : Value) : Except Failure Settings :=
  (Model.settings v).toExcept "GeneratorConfig"

/-! ## Writing -/

/-- A text that may be missing. -/
def Value.ofText? (s : Option String) : Value :=
  match s with
  | some s => .str s
  | none => .null

/-- A folder rule as a value. -/
def FolderRule.toValue (r : FolderRule) : Value :=
  .map [(.str "match", .str r.fragment), (.str "folder", .str r.folder)]

/-- A source as a value. -/
def Source.toValue (s : Source) : Value :=
  .map [(.str "type", .str s.type.word), (.str "source", .str s.location),
    (.str "service_name", .ofText? s.serviceName), (.str "output_dir", .ofText? s.outputDir),
    (.str "skip", .bool s.skip)]

/-- Settings as a value. -/
def Settings.toValue (s : Settings) : Value :=
  .map [(.str "output_dir", .str s.outputDir),
    (.str "sources", .list (s.sources.map Source.toValue)),
    (.str "transport_import_path", .str s.transport),
    (.str "clean_output", .bool s.cleanOutput),
    (.str "parallel", .bool s.parallel),
    (.str "folder_rules", .list (s.rules.map FolderRule.toValue)),
    (.str "version_segments", .list (s.versions.map Value.str)),
    (.str "resource_window", .int s.window)]

mutual

/-- A value without the entries that are null. -/
def Value.withoutNulls : Value → Value
  | .list items => .list (withoutNullItems items)
  | .map es => .map (withoutNullEntries es)
  | v => v

/-- Items without the entries that are null inside them. -/
def Value.withoutNullItems : List Value → List Value
  | [] => []
  | v :: rest => v.withoutNulls :: withoutNullItems rest

/-- Entries without those that are null. -/
def Value.withoutNullEntries : List (Value × Value) → List (Value × Value)
  | [] => []
  | (_, .null) :: rest => withoutNullEntries rest
  | (k, v) :: rest => (k, v.withoutNulls) :: withoutNullEntries rest

end

/-- The settings a new project starts from (`sample_config`). -/
def Settings.sample : Settings :=
  { Settings.default with
    sources := [
      ⟨.url, "https://petstore.swagger.io/v2/swagger.json", some "PetStoreService", none, false⟩,
      ⟨.file, "./specs", none, none, true⟩] }

/-- The text of a settings file. -/
def Settings.fileText (s : Settings) : String := Json.pretty s.toValue.withoutNulls ++ "\n"

end TypedClients
