import TypedClients.Proofs.Client.Comments

/-!
# Documentation stays out of the code

An operation without its documentation has the same member, but for the comment. So whatever a
document says in summaries and descriptions, the code of a client module is the one that it
would have if nothing were said.

* `exists_silent_member`: the member of an operation, documentation aside, is that of the
  silent one.
* `Group.code_of_silent`: the code of a client is that of the client of the silent operations.
-/

namespace TypedClients

/-- A parameter without its description. -/
def Parameter.silent (p : Parameter) : Parameter := { p with description := none }

/-- An operation without summary and description, of itself or of its parameters. -/
def Operation.silent (o : Operation) : Operation :=
  { o with
    summary := none
    description := none
    pathParams := o.pathParams.map Parameter.silent
    queryParams := o.queryParams.map Parameter.silent
    headerParams := o.headerParams.map Parameter.silent }

/-- A group of operations without documentation. -/
def Group.silent (g : Group) : Group := { g with operations := g.operations.map Operation.silent }

/-- A member without its documentation. -/
def Member.undocumented (m : Member) : Member := { m with docLines := [] }

namespace Client

variable {o : Operation} {t : TypeTable} {names : Ordered String} {name : String} {m : Member}

theorem declared?_silent (o : Operation) (placeholder : String) :
    declared? o.silent placeholder = (declared? o placeholder).map Parameter.silent := by
  rw [declared?, declared?, Operation.silent, ← List.map_reverse, List.find?_map]
  rfl

theorem pathArguments_silent (o : Operation) (names : Ordered String) (ps : List String) :
    pathArguments o.silent names ps = pathArguments o names ps := by
  induction ps with
  | nil => rfl
  | cons p rest ih =>
    rw [pathArguments, pathArguments, ih, declared?_silent]
    cases declared? o p <;> rfl

theorem queryMembers_silent (names : Ordered String) (ps : List Parameter) :
    queryMembers names (ps.map Parameter.silent) = queryMembers names ps := by
  induction ps with
  | nil => rfl
  | cons p rest ih =>
    rw [List.map_cons, queryMembers, queryMembers, ih]
    rfl

theorem isEmpty_queryParams_silent (o : Operation) :
    o.silent.queryParams.isEmpty = o.queryParams.isEmpty := List.isEmpty_map

theorem queryArguments_silent (o : Operation) (names : Ordered String) :
    queryArguments o.silent names = queryArguments o names := by
  have hrequired : (o.silent.queryParams.all fun p => !p.required) =
      o.queryParams.all fun p => !p.required := List.all_map
  have hmembers : queryMembers names o.silent.queryParams = queryMembers names o.queryParams :=
    queryMembers_silent names o.queryParams
  rw [queryArguments, queryArguments, isEmpty_queryParams_silent, hrequired, hmembers]

theorem bodyLines_silent (o : Operation) (returns : String) :
    bodyLines o.silent returns = bodyLines o returns := by
  rw [bodyLines, bodyLines, isEmpty_queryParams_silent]
  rfl

/-- The member of an operation is that of the silent operation, but for what is documented. -/
theorem exists_silent_member (h : member name o t = .ok m) :
    ∃ m', member name o.silent t = .ok m' ∧ m'.undocumented = m.undocumented := by
  rw [member] at h
  obtain ⟨path, hpath, h⟩ := bind_eq_ok.1 h
  obtain ⟨query, hquery, h⟩ := bind_eq_ok.1 h
  cases h
  have hplaceholders : Naming.placeholders o.silent.path = Naming.placeholders o.path := rfl
  have hreturns : returnType o.silent t = returnType o t := rfl
  rw [member, hplaceholders, pathArguments_silent, hpath, queryArguments_silent, hquery]
  refine ⟨_, rfl, ?_⟩
  rw [Member.undocumented, Member.undocumented, hreturns, bodyLines_silent]
  rfl

theorem exists_silent_members {entries : List (String × Operation)} {ms : List Member}
    (h : members t entries = .ok ms) :
    ∃ ms', members t (entries.map (Prod.map id Operation.silent)) = .ok ms' ∧
      ms'.map Member.undocumented = ms.map Member.undocumented := by
  induction entries generalizing ms with
  | nil =>
    cases h
    exact ⟨[], rfl, rfl⟩
  | cons e rest ih =>
    rw [members] at h
    obtain ⟨m, hm, h⟩ := bind_eq_ok.1 h
    obtain ⟨others, hothers, he⟩ := bind_eq_ok.1 h
    cases he
    obtain ⟨m', hm', hsame⟩ := exists_silent_member hm
    obtain ⟨others', hothers', hrest⟩ := ih hothers
    refine ⟨m' :: others', ?_, ?_⟩
    · rw [List.map_cons, Prod.map, members, id_eq, hm', hothers']
      rfl
    · rw [List.map_cons, List.map_cons, hsame, hrest]

/-- What does not look at the documentation is the same for members that are equal without it. -/
theorem map_of_undocumented {α : Type} (f : Member → α) (hf : ∀ m, f m = f m.undocumented)
    {ms ms' : List Member} (h : ms'.map Member.undocumented = ms.map Member.undocumented) :
    ms'.map f = ms.map f := by
  have hcomp : f = f ∘ Member.undocumented := funext hf
  rw [hcomp, ← List.map_map, ← List.map_map, h]

end Client

namespace ClientModule

/-- The parts of a module that are code. -/
def codeOf (m : ClientModule) (folder : List String) (transport baseUrl : String) : List String :=
  (m.portions folder transport baseUrl).filterMap Script.Portion.code?

/-- The code is what is imported, the class, and the code of each member. -/
theorem codeOf_eq (m : ClientModule) (folder : List String) (transport baseUrl : String) :
    m.codeOf folder transport baseUrl =
      [m.opening transport, m.classOpening] ++
        (m.members.map fun member => ["\n  ", member.code]).flatten ++ ["\x7d\n"] := by
  have hmembers : (m.members.flatMap Member.portions).filterMap Script.Portion.code? =
      (m.members.map fun member => ["\n  ", member.code]).flatten := by
    rw [List.filterMap_flatMap, List.flatMap_def]
    rfl
  rw [codeOf, portions, List.filterMap_append, List.filterMap_append, hmembers]
  rfl

end ClientModule

/-- The code of a client, whatever its comments say, is the code of the client of the same
operations without their documentation. -/
theorem Group.code_of_silent {g : Group} {t : TypeTable} {style : Endpoints.NameStyle}
    {client : ClientModule} (h : g.client t style = .ok client) :
    ∃ silent, g.silent.client t style = .ok silent ∧
      ∀ folder transport baseUrl, client.codeOf folder transport baseUrl =
        silent.codeOf folder transport "" := by
  rw [Group.client] at h
  obtain ⟨ms, hms, h⟩ := bind_eq_ok.1 h
  cases h
  obtain ⟨ms', hms', hsame⟩ := Client.exists_silent_members hms
  have hnames : g.silent.operations.map (Client.memberName style) =
      g.operations.map (Client.memberName style) := by
    rw [Group.silent, List.map_map]
    rfl
  have hmentions := Client.map_of_undocumented (Client.memberMentions t) (fun _ => rfl) hsame
  have hcode := Client.map_of_undocumented (fun m => ["\n  ", m.code]) (fun _ => rfl) hsame
  have himports : ms'.flatMap (Client.memberMentions t) = ms.flatMap (Client.memberMentions t) := by
    rw [List.flatMap_def, List.flatMap_def, hmentions]
  rw [← List.zip_map_right] at hms'
  refine ⟨⟨g.clientName, Text.sortedNames (ms.flatMap (Client.memberMentions t)), ms'⟩, ?_,
    fun folder transport baseUrl => ?_⟩
  · rw [Group.client, hnames, ← himports]
    exact bind_eq_ok.2 ⟨ms', hms', rfl⟩
  · rw [ClientModule.codeOf_eq, ClientModule.codeOf_eq, hcode]
    rfl

end TypedClients
