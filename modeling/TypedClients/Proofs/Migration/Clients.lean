import TypedClients.Generation
import TypedClients.Proofs.Migration.Operations

/-!
# The clients of a migrated document

An operation whose references are moved becomes the member that it became before, in the
client of the same group.

* `Client.member_moved`: the member of an operation.
* `Generation.folderOutputs_moved`: the files of all groups.
-/

namespace TypedClients

variable {names : Ordered String}

/-! ## Members -/

namespace Client

theorem declared?_moved (o : Operation) (placeholder : String) :
    declared? o.moved placeholder = (declared? o placeholder).map Parameter.moved := by
  have hreverse : o.moved.pathParams.reverse = o.pathParams.reverse.map Parameter.moved :=
    List.map_reverse.symm
  rw [declared?, hreverse, List.find?_map, declared?]
  rfl

theorem pathArguments_moved (o : Operation) (placeholders : List String) :
    pathArguments o.moved names placeholders = pathArguments o names placeholders := by
  induction placeholders with
  | nil => rfl
  | cons p rest ih =>
    rw [pathArguments, pathArguments, ih, declared?_moved]
    cases declared? o p with
    | none => rfl
    | some parameter =>
      have hrender : parameter.moved.schema.render names = parameter.schema.render names :=
        Schema.render_moved parameter.schema
      dsimp only [Option.map_some]
      rw [hrender]

theorem queryMembers_moved (ps : List Parameter) :
    queryMembers names (ps.map Parameter.moved) = queryMembers names ps := by
  induction ps with
  | nil => rfl
  | cons p rest ih =>
    have hrender : p.moved.schema.render names = p.schema.render names :=
      Schema.render_moved p.schema
    rw [List.map_cons, queryMembers, queryMembers, ih, hrender]
    rfl

theorem queryArguments_moved (o : Operation) :
    queryArguments o.moved names = queryArguments o names := by
  have hempty : o.moved.queryParams.isEmpty = o.queryParams.isEmpty := List.isEmpty_map
  have hall : (o.moved.queryParams.all fun p => !p.required) =
      o.queryParams.all fun p => !p.required := List.all_map
  have hmembers : queryMembers names o.moved.queryParams = queryMembers names o.queryParams :=
    queryMembers_moved o.queryParams
  rw [queryArguments, hempty, hall, hmembers, queryArguments]

theorem takesData_moved (o : Operation) : takesData o.moved = takesData o := by
  have hbody : o.moved.requestBody.isSome = o.requestBody.isSome := Option.isSome_map
  rw [takesData, hbody, takesData]
  rfl

theorem dataArguments_moved (o : Operation) (t : TypeTable) :
    dataArguments o.moved t = dataArguments o t := by
  rw [dataArguments, takesData_moved, dataArguments]
  rfl

theorem docArgument_moved (o : Operation) (argument placeholder : String) :
    docArgument argument (declared? o.moved placeholder) =
      docArgument argument (declared? o placeholder) := by
  rw [declared?_moved]
  cases declared? o placeholder <;> rfl

theorem bodyLines_moved (o : Operation) (returnType : String) :
    bodyLines o.moved returnType = bodyLines o returnType := by
  have hempty : o.moved.queryParams.isEmpty = o.queryParams.isEmpty := List.isEmpty_map
  rw [bodyLines, hempty, takesData_moved, bodyLines]
  rfl

/-- An operation becomes the member that it became before. -/
theorem member_moved (name : String) (o : Operation) (t : TypeTable) :
    member name o.moved t = member name o t := by
  have hempty : o.moved.queryParams.isEmpty = o.queryParams.isEmpty := List.isEmpty_map
  rw [member, member, pathArguments_moved, queryArguments_moved, dataArguments_moved,
    takesData_moved, hempty]
  simp only [docArgument_moved, bodyLines_moved]
  rfl

theorem members_moved (t : TypeTable) (ns : List String) (os : List Operation) :
    members t (ns.zip (os.map Operation.moved)) = members t (ns.zip os) := by
  induction os generalizing ns with
  | nil => rfl
  | cons o rest ih =>
    cases ns with
    | nil => rfl
    | cons n ns =>
      rw [List.map_cons, List.zip_cons_cons, List.zip_cons_cons, members, members, member_moved, ih]

end Client

/-! ## Groups -/

/-- A group with the references of its operations moved. -/
def Group.moved (g : Group) : Group := { g with operations := g.operations.map Operation.moved }

namespace Group

theorem add_moved (folder : List String) (o : Operation) (gs : List Group) :
    add folder o.moved (gs.map moved) = (add folder o gs).map moved := by
  induction gs with
  | nil => rfl
  | cons g rest ih =>
    rw [List.map_cons, add, add]
    have hkey : g.moved.key = g.key := rfl
    rw [hkey]
    split
    · rw [List.map_cons, moved, moved, List.map_append]
      rfl
    · rw [List.map_cons, ih]

/-- The groups of operations are those from before. -/
theorem ofOperations_moved (service : String) (rules : List FolderRule) (versions : List String)
    (os : List Operation) : ofOperations service rules versions (os.map Operation.moved) =
      (ofOperations service rules versions os).map moved := by
  have hfold : ∀ gs : List Group,
      (os.map Operation.moved).foldl
          (fun gs o => add (Layout.folderOf o.path service rules versions) o gs) (gs.map moved) =
        (os.foldl (fun gs o => add (Layout.folderOf o.path service rules versions) o gs) gs).map
          moved := by
    induction os with
    | nil => exact fun gs => rfl
    | cons o rest ih =>
      intro gs
      rw [List.map_cons, List.foldl_cons, List.foldl_cons, ← ih, ← add_moved]
      rfl
  exact hfold []

theorem client_moved (g : Group) (t : TypeTable) (style : Endpoints.NameStyle) :
    g.moved.client t style = g.client t style := by
  have hnames : g.moved.operations.map (Client.memberName style) =
      g.operations.map (Client.memberName style) := List.map_map
  rw [client, hnames, client, moved, Client.members_moved]
  rfl

end Group

namespace Generation

variable {d : Document} {root : Value}

theorem sourcesOf_moved (g : Group) : sourcesOf g.moved = sourcesOf g := by
  have hsources : ∀ o : Operation, Endpoints.sourcesOf o.moved = Endpoints.sourcesOf o := by
    intro o
    have hbody : o.moved.requestBody.isSome = o.requestBody.isSome := Option.isSome_map
    rw [Endpoints.sourcesOf, hbody, Endpoints.sourcesOf]
    rfl
  rw [sourcesOf, sourcesOf, Group.moved, List.flatMap_map]
  exact congrArg (List.flatMap · g.operations) (funext hsources)

/-- The files of the groups are those from before. -/
theorem folderOutputs_moved (options : Options) (t : TypeTable) (sources : List String)
    (gs : List Group) : folderOutputs (d.migrated root) options t sources (gs.map Group.moved) =
      folderOutputs d options t sources gs := by
  induction gs with
  | nil => rfl
  | cons g rest ih =>
    have hfolder : folderOutput (d.migrated root) options t sources g.moved =
        folderOutput d options t sources g := by
      rw [folderOutput, sourcesOf_moved, Group.client_moved, folderOutput]
      rfl
    rw [List.map_cons, folderOutputs, folderOutputs, hfolder, ih]

/-- Schemas do not get deeper. -/
theorem withinLimit_moved (limit : Nat) (index : SchemaIndex) (os : List Operation) :
    withinLimit limit index.moved (os.map Operation.moved) = withinLimit limit index os := by
  have hentries : (index.moved.entries.all fun e => decide (e.2.depth ≤ limit)) =
      index.entries.all fun e => decide (e.2.depth ≤ limit) := by
    rw [SchemaIndex.moved, List.all_map]
    simp only [Function.comp_def, Schema.depth_moved]
  have hparameters : ∀ ps : List Parameter,
      ((ps.map Parameter.moved).all fun p => decide (p.schema.depth ≤ limit)) =
        ps.all fun p => decide (p.schema.depth ≤ limit) := by
    intro ps
    rw [List.all_map]
    simp only [Function.comp_def, Parameter.moved, Schema.depth_moved]
  have hbody : ∀ o : Operation, (o.requestBody.map Schema.moved).all (fun s =>
      decide (s.depth ≤ limit)) = o.requestBody.all fun s => decide (s.depth ≤ limit) := by
    intro o
    rw [Option.all_map]
    simp only [Schema.depth_moved]
  have hresponses : ∀ o : Operation, ((o.responses.map fun e => (e.1, e.2.moved)).all fun e =>
      decide (e.2.depth ≤ limit)) = o.responses.all fun e => decide (e.2.depth ≤ limit) := by
    intro o
    rw [List.all_map]
    simp only [Function.comp_def, Schema.depth_moved]
  rw [withinLimit, hentries, List.all_map, withinLimit]
  simp only [Function.comp_def, Operation.moved, ← List.map_append, hparameters, hbody, hresponses]

end Generation

end TypedClients
