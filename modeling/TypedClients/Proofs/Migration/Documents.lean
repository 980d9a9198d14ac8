import Mathlib.Data.List.DropRight
import TypedClients.Operation.Extraction
import TypedClients.Proofs.Migration.Schemas

/-!
# Documents of the newer family from those of the older one

A document of the older family is made into one of the newer family that says the same:
definitions move to the components and references to them follow, the parameters of a path are
merged into those of its operations, a body or the fields of a form become a request body, the
schema of an answer becomes its content, and the base URL becomes a server.

* `ofValue_document`: the result is a document with the paths and definitions changed one by
  one, the same title block and the same base URL.
-/

namespace TypedClients

open Value (str list map)

namespace Migration

open Extraction (isIn isRequired isUsable inlineKeywords jsonMediaType nameOf
  sameParameter schemaUnder)

/-! ## Operations -/

/-- A parameter with the references of its schema moved. -/
def parameter (p : Value) : Value :=
  p.mapFields fun k v => if k.isStr "schema" || k.isStr "items" then v.moved else v

/-- The schema object of a parameter: the one it holds, or the one that is spread over it. -/
def schemaOf (p : Value) : Value :=
  (schemaUnder "schema" p).getD <|
    let inline := inlineKeywords.filterMap fun k => (p.get? k).map (str k, ·)
    map (if p.has "type" then inline else inline ++ [(str "type", str "string")])

/-- Form fields as one object, in order. -/
def form (fields : List Value) : Value :=
  let properties := fields.foldl (fun (t : Ordered Value) p => t.put (nameOf p) (schemaOf p)) []
  map [
    (str "type", str "object"),
    (str "properties", map (properties.map fun e => (str e.1, e.2))),
    (str "required", list ((fields.filter isRequired).map fun p => str (nameOf p)))]

/-- The schema of what an operation is sent: that of the first body, or the form if there is
none. -/
def payload? (ps : List Value) : Option Value :=
  match ps.find? (isIn "body") with
  | some body => body.get? "schema"
  | none =>
    let fields := ps.filter (isIn "formData")
    if fields.isEmpty then none else some (form fields)

/-- A content table with a schema for JSON. -/
def content (schema : Value) : Value := map [(str jsonMediaType, map [(str "schema", schema)])]

/-- A request body with a schema. -/
def requestBody (schema : Value) : Value := map [(str "content", content schema)]

/-- A response with its schema as its content. -/
def response (r : Value) : Value :=
  (r.replace "schema" none).replace "content"
    ((schemaUnder "schema" r).map fun s => content s.moved)

/-- The usable parameters of an optional list. -/
def usable (ps : Option Value) : List Value := ((ps.bind Value.items?).getD []).filter isUsable

/-- The parameters of a path that the operation does not override, followed by its own. -/
def merged (shared own : List Value) : List Value :=
  shared.filter (fun p => !own.any (sameParameter p)) ++ own

/-- Whether a parameter is part of what is sent. -/
def isPayload (p : Value) : Bool := isIn "body" p || isIn "formData" p

/-- The parameters that stay parameters. -/
def arguments (ps : List Value) : List Value := (ps.filter (!isPayload ·)).map parameter

/-- An operation, given the parameters of its path. -/
def operation (shared : List Value) (op : Value) : Value :=
  let ps := merged shared (usable (op.get? "parameters"))
  ((op.replace "parameters" (some (list (arguments ps)))).replace
    "requestBody" ((payload? ps).map fun s => requestBody s.moved)).replace
    "responses" ((op.get? "responses").map (·.mapFields fun _ r => response r))

/-- A path item, its parameters merged into its operations. -/
def pathItem (item : Value) : Value :=
  let shared := usable (item.get? "parameters")
  (item.mapFields fun k v =>
    if (Method.all.any fun m => k.isStr m.word) && v.isMap then operation shared v else v).replace
    "parameters" none

/-! ## Documents -/

/-- The version that a document of the newer family names. -/
def version : String := "3.0.3"

/-- A document of the newer family, from one of the older family and its base URL. -/
def document (root : Value) (baseUrl : String) : Value :=
  root
    |>.replace "swagger" none
    |>.replace "openapi" (some (str version))
    |>.replace "definitions" none
    |>.replace "components"
      (some ((map []).replace "schemas" ((root.get? "definitions").map Value.movedTable)))
    |>.replace "host" none
    |>.replace "basePath" none
    |>.replace "schemes" none
    |>.replace "servers" (some (list [map [(str "url", str baseUrl)]]))
    |>.replace "paths" ((root.get? "paths").map (·.mapFields fun _ item => pathItem item))

end Migration

/-- A document with its paths and definitions migrated, read from a root. -/
def Document.migrated (d : Document) (root : Value) : Document where
  family := .openapi3
  versionText := Migration.version
  info := d.info
  paths := d.paths.map fun e => (e.1, Migration.pathItem e.2)
  definitions := d.definitions.map fun e => (e.1, e.2.moved)
  baseUrl := d.baseUrl
  root := root

namespace Migration

variable {root : Value} {baseUrl : String}

theorem isMap_document : (document root baseUrl).isMap = root.isMap := by
  simp only [document, Value.isMap_replace]

theorem get?_document (h : root.isMap = true) (key : String) : (document root baseUrl).get? key =
    if key = "paths" then (root.get? "paths").map (·.mapFields fun _ item => pathItem item)
    else if key = "servers" then some (list [map [(str "url", str baseUrl)]])
    else if key = "schemes" then none
    else if key = "basePath" then none
    else if key = "host" then none
    else if key = "components" then
      some ((map []).replace "schemas" ((root.get? "definitions").map Value.movedTable))
    else if key = "definitions" then none
    else if key = "openapi" then some (str version)
    else if key = "swagger" then none
    else root.get? key := by
  simp only [document, Value.get?_replace, Value.isMap_replace, h]

theorem family_document (h : root.isMap = true) :
    Family.ofValue (document root baseUrl) = .ok .openapi3 := by
  have hswagger : (document root baseUrl).get? "swagger" = none := by simp [get?_document h]
  have hopenapi : (document root baseUrl).get? "openapi" = some (str version) := by
    simp [get?_document h]
  rw [Family.ofValue, isMap_document, h]
  simp only [hswagger, hopenapi]
  rfl

theorem definitionsOf_document (h : root.isMap = true) :
    Document.definitionsOf (document root baseUrl) .openapi3 =
      (Document.definitionsOf root .swagger2).map Value.movedTable := by
  have hcomponents : (document root baseUrl).get? "components" =
      some ((map []).replace "schemas" ((root.get? "definitions").map Value.movedTable)) := by
    simp [get?_document h]
  have hschemas : ((map []).replace "schemas" ((root.get? "definitions").map Value.movedTable)).get?
      "schemas" = (root.get? "definitions").map Value.movedTable := by
    rw [Value.get?_replace rfl, if_pos rfl]
  change ((document root baseUrl).get? "components").bind (·.get? "schemas") = _
  rw [hcomponents, Option.bind_some, hschemas, Document.definitionsOf]

theorem paths_document (h : root.isMap = true) : (document root baseUrl).get? "paths" =
    (root.get? "paths").map (·.mapFields fun _ item => pathItem item) := by
  simp [get?_document h]

theorem infoOf_document (h : root.isMap = true) :
    Document.infoOf (document root baseUrl) = Document.infoOf root := by
  have hinfo : (document root baseUrl).get? "info" = root.get? "info" := by simp [get?_document h]
  rw [Document.infoOf, hinfo, Document.infoOf]

theorem keyIssues_document (h : root.isMap = true)
    (hnone : Value.keyIssues "raw" root.entries = []) :
    Value.keyIssues "raw" (document root baseUrl).entries = [] := by
  rw [document]
  repeat refine Value.keyIssues_replace (by simp only [Value.isMap_replace, h]) ?_ _ _
  exact hnone

/-- A table whose values are changed has the entries of the table, changed. -/
theorem table_mapFields (cause : Cause) (f : Value → Value → Value) (v : Option Value) :
    Document.table cause (v.map (Value.mapFields f)) =
      List.map (fun e => (e.1, f e.1 e.2)) <$> Document.table cause v := by
  cases v with
  | none => rfl
  | some v =>
    rw [Document.table, Document.table, Option.map_some, Option.filter_some, Option.filter_some,
      Value.isGiven_mapFields]
    cases v.isGiven with
    | false => rfl
    | true =>
      rw [if_pos rfl, if_pos rfl]
      dsimp only
      rw [Value.entries?, Value.isMap_mapFields, Value.entries_mapFields, Value.entries?]
      cases v.isMap <;> rfl

/-! ## Base URLs -/

theorem dropTrailingSlashes_idem (s : String) :
    Document.dropTrailingSlashes (Document.dropTrailingSlashes s) =
      Document.dropTrailingSlashes s := by
  rw [Document.dropTrailingSlashes, Document.dropTrailingSlashes, String.toList_ofList,
    List.reverse_reverse, List.dropWhile_idempotent]

theorem mem_dropTrailingSlashes {s : String} {c : Char} (h : c ∈ s.toList) (hc : c ≠ '/') :
    c ∈ (Document.dropTrailingSlashes s).toList := by
  rw [Document.dropTrailingSlashes, String.toList_ofList, List.mem_reverse]
  have hsplit : s.toList.reverse.takeWhile (· = '/') ++ s.toList.reverse.dropWhile (· = '/') =
      s.toList.reverse := List.takeWhile_append_dropWhile
  rw [← List.mem_reverse, ← hsplit, List.mem_append] at h
  rcases h with h | h
  · have hslash := List.mem_takeWhile_imp h
    exact absurd (of_decide_eq_true hslash) hc
  · exact h

/-- A base URL is something, and has no slash at its end. -/
theorem baseUrlOf_swagger2 (h : Document.baseUrlOf root .swagger2 = .ok baseUrl) :
    baseUrl ≠ "" ∧ Document.dropTrailingSlashes baseUrl = baseUrl := by
  rw [Document.baseUrlOf] at h
  split at h
  · cases h
    exact ⟨by decide, by decide⟩
  next host hhost =>
    obtain ⟨scheme, -, h⟩ := bind_eq_ok.1 h
    cases h
    refine ⟨fun hempty => ?_, dropTrailingSlashes_idem _⟩
    have hmem : ':' ∈ (scheme ++ "://" ++ host.display ++
        ((Document.given? root "basePath").map Value.display).getD "").toList := by
      simp
    have hcolon := mem_dropTrailingSlashes hmem (by decide)
    rw [hempty] at hcolon
    exact absurd hcolon (by decide)

theorem baseUrlOf_document (h : root.isMap = true) (hne : baseUrl ≠ "")
    (hslash : Document.dropTrailingSlashes baseUrl = baseUrl) :
    Document.baseUrlOf (document root baseUrl) .openapi3 = .ok baseUrl := by
  have hservers : (document root baseUrl).get? "servers" =
      some (list [map [(str "url", str baseUrl)]]) := by simp [get?_document h]
  have hurl : (map [(str "url", str baseUrl)]).get? "url" = some (str baseUrl) := rfl
  have hempty : baseUrl.isEmpty = false := by simpa using hne
  rw [Document.baseUrlOf, hservers]
  dsimp only [Option.bind_some, Value.items?]
  rw [hurl]
  dsimp only
  rw [hempty, hslash]
  rfl

/-! ## Reading the result -/

end Migration

/-- What a document is read from, and what it then says. -/
theorem Document.ofValue_eq_ok {root : Value} {d : Document} : Document.ofValue root = .ok d ↔
    root.isMap = true ∧ ∃ family paths definitions baseUrl,
      Family.ofValue root = .ok family ∧
      table .pathsNotAnObject (root.get? "paths") = .ok paths ∧
      table .definitionsNotAnObject (definitionsOf root family) = .ok definitions ∧
      baseUrlOf root family = .ok baseUrl ∧
      Value.keyIssues "paths" paths = [] ∧ Value.keyIssues "definitions" definitions = [] ∧
      Value.keyIssues "raw" root.entries = [] ∧
      d = ⟨family, ((match family with
          | .swagger2 => root.get? "swagger"
          | .openapi3 => root.get? "openapi").map Value.display).getD "", infoOf root,
        Value.named paths, Value.named definitions, baseUrl,
        .map (Value.textKeyed root.entries)⟩ := by
  constructor
  · intro h
    rw [ofValue] at h
    split at h
    · cases h
    next hmap =>
      obtain ⟨family, hfamily, h⟩ := bind_eq_ok.1 h
      obtain ⟨paths, hpaths, h⟩ := bind_eq_ok.1 h
      obtain ⟨definitions, hdefinitions, h⟩ := bind_eq_ok.1 h
      obtain ⟨baseUrl, hbaseUrl, h⟩ := bind_eq_ok.1 h
      dsimp only at h
      by_cases hissues : Value.keyIssues "paths" paths ++
        Value.keyIssues "definitions" definitions ++
          Value.keyIssues "raw" root.entries = []
      · rw [if_neg (not_not.2 hissues)] at h
        rw [List.append_eq_nil_iff, List.append_eq_nil_iff] at hissues
        cases h
        exact ⟨by simpa using hmap, family, paths, definitions, baseUrl, hfamily, hpaths,
          hdefinitions, hbaseUrl, hissues.1.1, hissues.1.2, hissues.2, rfl⟩
      · rw [if_pos hissues] at h
        cases h
  · rintro ⟨hmap, family, paths, definitions, baseUrl, hfamily, hpaths, hdefinitions, hbaseUrl,
      hpathKeys, hdefinitionKeys, hkeys, rfl⟩
    rw [ofValue, hmap]
    refine bind_eq_ok.2 ⟨family, hfamily, bind_eq_ok.2 ⟨paths, hpaths, ?_⟩⟩
    refine bind_eq_ok.2 ⟨definitions, hdefinitions, bind_eq_ok.2 ⟨baseUrl, hbaseUrl, ?_⟩⟩
    rw [hpathKeys, hdefinitionKeys, hkeys]
    rfl

namespace Migration

/-- The result of a migration is a document that says the same in the other family. -/
theorem ofValue_document {d : Document} (h : Document.ofValue root = .ok d)
    (hfamily : d.family = .swagger2) :
    ∃ root', Document.ofValue (document root d.baseUrl) = .ok (d.migrated root') := by
  obtain ⟨hmap, family, paths, definitions, baseUrl, -, hpaths, hdefinitions, hbaseUrl, hpathKeys,
    hdefinitionKeys, hkeys, rfl⟩ := Document.ofValue_eq_ok.1 h
  dsimp only at hfamily ⊢
  subst hfamily
  obtain ⟨hne, hslash⟩ := baseUrlOf_swagger2 hbaseUrl
  have hpaths' := table_mapFields .pathsNotAnObject (fun _ item => pathItem item)
    (root.get? "paths")
  have hdefinitions' := table_mapFields .definitionsNotAnObject (fun _ v => v.moved)
    (Document.definitionsOf root .swagger2)
  rw [hpaths, ← paths_document hmap] at hpaths'
  have htable : Value.mapFields (fun _ v => v.moved) = Value.movedTable :=
    funext fun v => (Value.movedTable_eq_mapFields v).symm
  rw [hdefinitions, htable, ← definitionsOf_document hmap] at hdefinitions'
  refine ⟨.map (Value.textKeyed (document root baseUrl).entries), Document.ofValue_eq_ok.2
    ⟨isMap_document.trans hmap, .openapi3, _, _, baseUrl, family_document hmap, hpaths',
      hdefinitions', baseUrlOf_document hmap hne hslash, ?_, ?_, keyIssues_document hmap hkeys, ?_⟩⟩
  · exact (Value.keyIssues_map _ (fun _ item => pathItem item) paths).trans hpathKeys
  · exact (Value.keyIssues_map _ (fun _ v => v.moved) definitions).trans hdefinitionKeys
  · have hversion : (document root baseUrl).get? "openapi" = some (str version) := by
      simp [get?_document hmap]
    dsimp only
    rw [hversion, infoOf_document hmap, Value.named_map, Value.named_map]
    rfl

end Migration

end TypedClients
