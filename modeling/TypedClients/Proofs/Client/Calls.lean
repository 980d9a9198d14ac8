import TypedClients.Proofs.Client.Imports
import TypedClients.Proofs.Client.Paths

/-!
# Members and their calls

A member is built twice from the same operation: its arguments on one side, the line that
calls the transport on the other. `Agrees` says that the two fit together. The arguments that
the path substitutes are the first arguments of the member, in order; the body and the query
are passed exactly if the member takes them; the options come last and may be left out, like
whatever comes behind an argument that may be. So whatever the call passes is an argument, and
so is every variable that the expression for the path reads, as long as that expression is one
literal. If the path ends its own template, what follows is code.

* `bodyLines_eq`: the lines of a member, from what it passes.
* `agrees_of_member`: the arguments and the call of every member fit together.
* `opening?_breakout`: a path that ends its template brings in a variable that is no argument.
-/

namespace TypedClients.Client

open Naming (placeholders)
open Script

/-! ## What is passed -/

/-- What a member passes to the transport behind the path. -/
inductive Passed
  /-- The body. -/
  | data
  /-- No body, where one may be deleted with. -/
  | undefined
  /-- No body, where one is expected. -/
  | empty
  /-- The options. -/
  | options
  /-- The options with the query, which the line ahead has put together. -/
  | merged
  deriving DecidableEq

/-- What is passed, as it is written. -/
def Passed.text : Passed → String
  | data => "data"
  | undefined => "undefined"
  | empty => "\x7b\x7d"
  | options => "options"
  | merged => "reqOptions"

/-- The arguments of the member that are passed in this way. -/
def Passed.names : Passed → List String
  | data => ["data"]
  | undefined => []
  | empty => []
  | options => ["options"]
  | merged => ["options", "params"]

/-- What a member passes behind the path, in order. -/
def passed (o : Operation) : List Passed :=
  (match o.method with
    | .get => []
    | .delete => [if takesData o then .data else .undefined]
    | _ => [if takesData o then .data else .empty]) ++
    [if o.queryParams.isEmpty then .options else .merged]

/-- The line that puts the options and the query together. -/
def mergingLine : String := "const reqOptions = \x7b ...options, params \x7d;"

/-- The line that calls the transport with a path and what is passed behind it. -/
def callLine (method : Method) (returnType path : String) (ps : List Passed) : String :=
  "return this.client." ++ method.word ++ "<" ++ returnType ++ ">(" ++
    Text.joinStrings ", " (path :: ps.map Passed.text) ++ ");"

theorem merged_mem_passed (o : Operation) :
    .merged ∈ passed o ↔ o.queryParams.isEmpty = false := by
  unfold passed
  cases o.method <;> cases takesData o <;> cases o.queryParams.isEmpty <;> decide

/-- No body is sent with a method that carries none. -/
theorem data_mem_passed (o : Operation) : .data ∈ passed o ↔ takesData o = true := by
  cases hdata : takesData o with
  | true =>
    have hmethod : o.method ≠ .get := by
      intro h
      rw [takesData, h] at hdata
      simp [Method.carriesBody] at hdata
    unfold passed
    rw [hdata]
    cases hm : o.method with
    | get => exact absurd hm hmethod
    | _ => cases o.queryParams.isEmpty <;> decide
  | false =>
    unfold passed
    rw [hdata]
    cases o.method <;> cases o.queryParams.isEmpty <;> decide

theorem joinStrings_passed (o : Operation) :
    Text.joinStrings ", " ((passed o).map Passed.text) =
      (match o.method with
        | .get => ""
        | .delete => (if takesData o then "data" else "undefined") ++ ", "
        | _ => (if takesData o then "data" else "\x7b\x7d") ++ ", ") ++
        if !o.queryParams.isEmpty then "reqOptions" else "options" := by
  unfold passed
  cases o.method <;> cases takesData o <;> cases o.queryParams.isEmpty <;> decide

/-- The lines of a member, from what it passes. -/
theorem bodyLines_eq (o : Operation) (returnType : String) :
    bodyLines o returnType =
      (if .merged ∈ passed o then [mergingLine] else []) ++
        [callLine o.method returnType (pathExpression o.path) (passed o)] := by
  have hpassed : (passed o).map Passed.text ≠ [] := by
    rw [passed, List.map_append]
    exact List.append_ne_nil_of_right_ne_nil _ (List.cons_ne_nil _ _)
  have hmerged : (.merged ∈ passed o) = (!o.queryParams.isEmpty) := by
    rw [merged_mem_passed]
    cases o.queryParams.isEmpty
    · simp
    · simp
  unfold callLine
  cases hm : o.method
  all_goals
    simp only [Text.joinStrings_cons _ _ hpassed, joinStrings_passed, bodyLines,
      hmerged, mergingLine, hm, String.append_assoc]

/-! ## Arguments -/

/-- A member from its parts. -/
theorem parts_of_member {name : String} {o : Operation} {t : TypeTable} {m : Member}
    (h : member name o t = .ok m) :
    ∃ path query, pathArguments o t.referenceNames (placeholders o.path) = .ok path ∧
      queryArguments o t.referenceNames = .ok query ∧
      m.arguments = path ++ dataArguments o t ++ query ++ [optionsArgument] ∧
      m.bodyLines = bodyLines o m.returnType := by
  rw [member] at h
  obtain ⟨path, hpath, h⟩ := bind_eq_ok.1 h
  obtain ⟨query, hquery, h⟩ := bind_eq_ok.1 h
  cases h
  exact ⟨path, query, hpath, hquery, rfl, rfl⟩

theorem required_of_pathArguments {o : Operation} {names : Ordered String}
    {placeholders : List String} {arguments : List Argument}
    (h : pathArguments o names placeholders = .ok arguments) :
    ∀ a, a ∈ arguments → a.optional = false := by
  induction placeholders generalizing arguments with
  | nil =>
    cases h
    exact fun a ha => absurd ha List.not_mem_nil
  | cons p rest ih =>
    rw [pathArguments] at h
    split at h
    all_goals
      obtain ⟨type, -, h⟩ := bind_eq_ok.1 h
      obtain ⟨others, hothers, h⟩ := bind_eq_ok.1 h
      cases h
      intro a ha
      rcases List.mem_cons.1 ha with rfl | ha
      · rfl
      · exact ih hothers a ha

theorem required_of_dataArguments (o : Operation) (t : TypeTable) :
    ∀ a, a ∈ dataArguments o t → a.optional = false := by
  unfold dataArguments
  split
  · intro a ha
    rw [List.mem_singleton.1 ha]
  · exact fun a ha => absurd ha List.not_mem_nil

theorem names_of_dataArguments (o : Operation) (t : TypeTable) :
    (dataArguments o t).map Argument.name = if takesData o then ["data"] else [] := by
  unfold dataArguments
  split
  · rfl
  · rfl

/-- The query is one argument, if there is a query at all. -/
theorem queryArguments_cases {o : Operation} {names : Ordered String} {arguments : List Argument}
    (h : queryArguments o names = .ok arguments) :
    (o.queryParams.isEmpty = true ∧ arguments = []) ∨
      (o.queryParams.isEmpty = false ∧ ∃ a : Argument, a.name = "params" ∧ arguments = [a]) := by
  rw [queryArguments] at h
  split at h
  next hempty =>
    cases h
    exact Or.inl ⟨hempty, rfl⟩
  next hempty =>
    obtain ⟨members, -, h⟩ := bind_eq_ok.1 h
    cases h
    exact Or.inr ⟨Bool.not_eq_true _ ▸ hempty, _, rfl, rfl⟩

theorem names_of_queryArguments {o : Operation} {names : Ordered String}
    {arguments : List Argument} (h : queryArguments o names = .ok arguments) :
    arguments.map Argument.name = if o.queryParams.isEmpty then [] else ["params"] := by
  rcases queryArguments_cases h with ⟨hempty, rfl⟩ | ⟨hempty, a, ha, rfl⟩
  · rw [hempty, if_pos rfl, List.map_nil]
  · rw [hempty, if_neg Bool.false_ne_true, List.map_singleton, ha]

/-! ## Agreement -/

/-- The arguments of a member that are its own, in order. -/
def fixedNames (o : Operation) : List String :=
  (if takesData o then ["data"] else []) ++ (if o.queryParams.isEmpty then [] else ["params"]) ++
    ["options"]

/-- How the arguments of a member and its call fit together. -/
structure Agrees (o : Operation) (m : Member) : Prop where
  /-- The call passes the expression for the path and what `passed` says. -/
  body : m.bodyLines = (if .merged ∈ passed o then [mergingLine] else []) ++
    [callLine o.method m.returnType (pathExpression o.path) (passed o)]
  /-- The first arguments are those that the path substitutes. -/
  path : (m.arguments.take (placeholders o.path).length).map Argument.name = substituted o.path
  /-- The others are the member's own. -/
  own : (m.arguments.drop (placeholders o.path).length).map Argument.name = fixedNames o
  /-- No argument of the path is called like an argument of the member's own. -/
  apart : ∀ n, n ∈ substituted o.path → n ∉ ownArguments
  /-- The body is passed exactly if the member takes one. -/
  data : .data ∈ passed o ↔ "data" ∈ m.arguments.map Argument.name
  /-- The query is passed exactly if the member takes one. -/
  merged : .merged ∈ passed o ↔ "params" ∈ m.arguments.map Argument.name
  /-- The options come last and may be left out. -/
  options : m.arguments.getLast? = some optionsArgument ∧ optionsArgument.optional = true
  /-- Behind an argument that may be left out no argument is required. -/
  optional : m.arguments.Pairwise fun a b => a.optional = true → b.optional = true
  /-- What the call passes is an argument. -/
  bound : ∀ n, n ∈ substituted o.path ++ (passed o).flatMap Passed.names →
    n ∈ m.arguments.map Argument.name
  /-- So is every variable that the literal reads which the expression for the path begins
  with. -/
  reads : ∀ parts rest, opening? (pathExpression o.path).toList = some (parts, rest) →
    ∀ n, .name n ∈ parts → n ∈ m.arguments.map Argument.name
  /-- Behind that literal nothing of the path is left, unless there is a backslash in the path. -/
  whole : '\\' ∉ o.path.toList → ∀ parts rest,
    opening? (pathExpression o.path).toList = some (parts, rest) → rest = []

theorem names_of_member {name : String} {o : Operation} {t : TypeTable} {m : Member}
    (h : member name o t = .ok m) :
    m.arguments.map Argument.name = substituted o.path ++ fixedNames o := by
  obtain ⟨path, query, hpath, hquery, harguments, -⟩ := parts_of_member h
  rw [harguments, List.map_append, List.map_append, List.map_append, name_of_pathArguments hpath,
    names_of_dataArguments, names_of_queryArguments hquery, substituted_eq, fixedNames,
    List.append_assoc, List.append_assoc, List.append_assoc]
  rfl

theorem mem_fixedNames (o : Operation) :
    ("data" ∈ fixedNames o ↔ takesData o = true) ∧
      ("params" ∈ fixedNames o ↔ o.queryParams.isEmpty = false) ∧ "options" ∈ fixedNames o := by
  unfold fixedNames
  cases takesData o <;> cases o.queryParams.isEmpty <;> decide

theorem substituted_not_own {path n : String} (h : n ∈ substituted path) : n ∉ ownArguments := by
  rw [substituted_eq] at h
  obtain ⟨p, -, rfl⟩ := List.mem_map.1 h
  exact pathArgument_not_own p

/-- What the call passes behind the path are arguments of the member's own. -/
theorem names_of_passed {o : Operation} {n : String} (h : n ∈ (passed o).flatMap Passed.names) :
    n ∈ fixedNames o := by
  obtain ⟨hdata, hparams, hoptions⟩ := mem_fixedNames o
  obtain ⟨p, hp, hn⟩ := List.mem_flatMap.1 h
  cases p with
  | data =>
    obtain rfl := List.mem_singleton.1 hn
    exact hdata.2 ((data_mem_passed o).1 hp)
  | undefined => cases hn
  | empty => cases hn
  | options =>
    obtain rfl := List.mem_singleton.1 hn
    exact hoptions
  | merged =>
    rcases List.mem_cons.1 hn with rfl | hn
    · exact hoptions
    · obtain rfl := List.mem_singleton.1 hn
      exact hparams.2 ((merged_mem_passed o).1 hp)

/-- Behind an argument of a member that may be left out no argument is required. -/
theorem pairwise_optional {name : String} {o : Operation} {t : TypeTable} {m : Member}
    (h : member name o t = .ok m) :
    m.arguments.Pairwise fun a b => a.optional = true → b.optional = true := by
  obtain ⟨path, query, hpath, hquery, harguments, -⟩ := parts_of_member h
  have hrequired : ∀ a, a ∈ path ++ dataArguments o t → a.optional = false := by
    intro a ha
    rcases List.mem_append.1 ha with ha | ha
    · exact required_of_pathArguments hpath a ha
    · exact required_of_dataArguments o t a ha
  have hfront : ∀ a b : Argument, a ∈ path ++ dataArguments o t →
      a.optional = true → b.optional = true := by
    intro a b ha hoptional
    rw [hrequired a ha] at hoptional
    cases hoptional
  rw [harguments, List.append_assoc, List.pairwise_append]
  refine ⟨?_, ?_, fun a ha b _ => hfront a b ha⟩
  · exact List.Pairwise.imp_of_mem (fun ha _ _ => hfront _ _ ha)
      (List.pairwise_of_forall fun _ _ => trivial)
  · rcases queryArguments_cases hquery with ⟨-, rfl⟩ | ⟨-, a, -, rfl⟩
    · exact List.pairwise_singleton _ _
    · exact List.pairwise_pair.2 fun _ => rfl

/-- The arguments and the call of every member fit together. -/
theorem agrees_of_member {name : String} {o : Operation} {t : TypeTable} {m : Member}
    (h : member name o t = .ok m) : Agrees o m := by
  obtain ⟨path, query, -, -, harguments, hbody⟩ := parts_of_member h
  obtain ⟨hdata, hparams, -⟩ := mem_fixedNames o
  have hnames := names_of_member h
  have hlength : (substituted o.path).length = (placeholders o.path).length := by
    rw [substituted_eq, List.length_map]
  -- an argument of the member's own is none of the path
  have hown : ∀ n, n ∈ ownArguments → (n ∈ m.arguments.map Argument.name ↔ n ∈ fixedNames o) := by
    intro n hn
    rw [hnames, List.mem_append]
    exact or_iff_right fun hmem => substituted_not_own hmem hn
  exact {
    body := by rw [hbody, bodyLines_eq]
    path := by rw [List.map_take, hnames, ← hlength, List.take_left]
    own := by rw [List.map_drop, hnames, ← hlength, List.drop_left]
    apart := fun n => substituted_not_own
    data := by rw [data_mem_passed, hown _ (by decide), hdata]
    merged := by rw [merged_mem_passed, hown _ (by decide), hparams]
    options := ⟨by rw [harguments, List.getLast?_concat], rfl⟩
    optional := pairwise_optional h
    bound := by
      intro n hn
      rw [hnames, List.mem_append]
      exact (List.mem_append.1 hn).imp_right names_of_passed
    reads := by
      intro parts rest hparts n hn
      rw [hnames, List.mem_append]
      exact Or.inl (names_of_pathExpression hparts hn)
    whole := fun hpath _ _ => rest_eq_nil_of_opening? hpath }

/-- An operation with a placeholder called like the body, a body and a query. -/
def correction : Operation where
  path := "/orders/{order-id}/{data}"
  method := .patch
  operationId := none
  summary := none
  description := none
  tags := []
  pathParams := []
  queryParams := [⟨"dry", .query, false, none, .string⟩]
  headerParams := []
  requestBody := some .untyped
  responses := []
  deprecated := false

/-- The arguments and the call of that operation. -/
theorem agrees_correction :
    ∃ m, member "patchOrders" correction .empty = .ok m ∧ Agrees correction m ∧
      m.arguments.map Argument.name = ["orderId", "dataParam", "data", "params", "options"] := by
  have hm : ((member "patchOrders" correction .empty).toOption.map fun m =>
      m.arguments.map Argument.name) =
        some ["orderId", "dataParam", "data", "params", "options"] := by
    decide +kernel
  obtain ⟨m, hsome, hnames⟩ := Option.map_eq_some_iff.1 hm
  have hok := Failure.eq_ok_of_toOption hsome
  exact ⟨m, hok, agrees_of_member hok, hnames⟩

/-- An operation whose path has a backslash ahead of a backtick. -/
def breakout : Operation where
  path := "/files/{drive}\\\x60, evil); //"
  method := .get
  operationId := none
  summary := none
  description := none
  tags := []
  pathParams := []
  queryParams := []
  headerParams := []
  requestBody := none
  responses := []
  deprecated := false

/-- The path ends its own template, and a variable that is no argument stands behind it. -/
theorem opening?_breakout :
    ((member "getFiles" breakout .empty).toOption.map fun m =>
        (m.arguments.map Argument.name, m.bodyLines)) =
      some (["drive", "options"],
        ["return this.client.get<any>(" ++ pathExpression breakout.path ++ ", options);"]) ∧
      opening? (pathExpression breakout.path).toList =
        some (("/files/".toList.flatMap units).map .unit ++ [.name "drive", .unit 92],
          ", evil); //\x60".toList) := by
  decide +kernel

end TypedClients.Client
