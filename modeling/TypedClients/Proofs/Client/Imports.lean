import Mathlib.Data.List.Forall2
import TypedClients.Client.Module
import TypedClients.Proofs.Client.Quotes

/-!
# Members and what they import

* `mentions_of_contains`: an identifier that names a type mentions exactly this type.
* `members_of_client`: the members of a client are the members of its operations, in order.
* `mem_imports`: what a member mentions is imported.
* `data_of_member`: a member has the argument `data` exactly if it takes a body.
-/

namespace TypedClients.Client

open Naming (isIdentifier isIdentifierPart isIdentifierStart)

/-! ## Mentions -/

theorem identifiersFrom_of_parts {current s : List Char} (hcurrent : current ≠ [])
    (h : ∀ c, c ∈ s → isIdentifierPart c = true) :
    identifiersFrom current s = [String.ofList (current.reverse ++ s)] := by
  induction s generalizing current with
  | nil =>
    have hsome := List.isEmpty_eq_false_iff.2 hcurrent
    rw [identifiersFrom, hsome, if_neg Bool.false_ne_true, List.append_nil]
  | cons c rest ih =>
    have hsome := List.isEmpty_eq_false_iff.2 hcurrent
    rw [identifiersFrom, hsome, if_neg Bool.false_ne_true, if_pos (h c List.mem_cons_self),
      ih (List.cons_ne_nil _ _) fun d hd => h d (List.mem_cons_of_mem _ hd), List.reverse_cons,
      List.append_assoc, List.singleton_append]

/-- The only identifier in an identifier is itself. -/
theorem identifiers_eq_singleton {s : String} (h : isIdentifier s.toList = true) :
    identifiers s = [s] := by
  unfold identifiers
  cases hs : s.toList with
  | nil =>
    rw [hs] at h
    cases h
  | cons c rest =>
    rw [hs] at h
    have hall : ∀ d, d ∈ c :: rest → isIdentifierPart d = true :=
      fun _ hd => Naming.isIdentifierPart_of_mem h hd
    rw [isIdentifier, Bool.and_eq_true, List.all_eq_true] at h
    have hplain := plain_of_isWordPart fun d hd => TypeText.isWordPart_of_isIdentifierPart
      (hall d hd)
    rw [hplain.unquoted_eq, identifiersFrom, List.isEmpty_nil, if_pos rfl, if_pos h.1,
      identifiersFrom_of_parts (List.cons_ne_nil _ _) h.2, List.reverse_singleton,
      List.singleton_append, ← hs, String.ofList_toList]

theorem mentions_of_contains {t : TypeTable} {name : String}
    (h : isIdentifier name.toList = true) (ht : t.contains name = true) :
    mentions t name = [name] := by
  rw [mentions, identifiers_eq_singleton h, List.filter_cons_of_pos ht, List.filter_nil]

/-! ## Arguments -/

/-- No argument for a placeholder has a name that members use themselves. -/
theorem pathArgument_not_own (placeholder : String) : pathArgument placeholder ∉ ownArguments := by
  unfold pathArgument
  simp only
  split
  · intro h
    -- the texts do not end alike
    have hown : ∀ w, w ∈ ownArguments → w.toList.getLast? ≠ some 'm' := by decide
    have hparam : ("Param" : String).toList.getLast? = some 'm' := rfl
    refine hown _ h ?_
    rw [String.toList_append, List.getLast?_append, hparam, Option.some_or]
  next hown => exact fun h => hown (List.contains_iff_mem.2 h)

theorem name_of_pathArguments {o : Operation} {names : Ordered String} {placeholders : List String}
    {arguments : List Argument} (h : pathArguments o names placeholders = .ok arguments) :
    arguments.map Argument.name = placeholders.map pathArgument := by
  induction placeholders generalizing arguments with
  | nil =>
    cases h
    rfl
  | cons p rest ih =>
    rw [pathArguments] at h
    split at h
    all_goals
      obtain ⟨type, -, h⟩ := bind_eq_ok.1 h
      obtain ⟨others, hothers, h⟩ := bind_eq_ok.1 h
      cases h
      rw [List.map_cons, List.map_cons, ih hothers]

theorem name_of_queryArguments {o : Operation} {names : Ordered String} {arguments : List Argument}
    (h : queryArguments o names = .ok arguments) : ∀ a, a ∈ arguments → a.name = "params" := by
  rw [queryArguments] at h
  split at h
  · cases h
    exact fun a ha => absurd ha List.not_mem_nil
  · obtain ⟨members, -, h⟩ := bind_eq_ok.1 h
    cases h
    intro a ha
    rw [List.mem_singleton.1 ha]

/-- Of all arguments of a member exactly those for the body are named `data`. -/
theorem data_of_member {name : String} {o : Operation} {t : TypeTable} {m : Member}
    (h : member name o t = .ok m) :
    m.arguments.filter (·.name = "data") = dataArguments o t := by
  rw [member] at h
  obtain ⟨path, hpath, h⟩ := bind_eq_ok.1 h
  obtain ⟨query, hquery, h⟩ := bind_eq_ok.1 h
  cases h
  -- neither path arguments nor the query have that name
  have hpath' : path.filter (·.name = "data") = [] := by
    refine List.filter_eq_nil_iff.2 fun a ha => ?_
    have hmem := List.mem_map_of_mem (f := Argument.name) ha
    rw [name_of_pathArguments hpath] at hmem
    obtain ⟨p, -, hp⟩ := List.mem_map.1 hmem
    rw [← hp, decide_eq_true_eq]
    intro hdata
    exact pathArgument_not_own p (hdata ▸ List.mem_cons_self)
  have hquery' : query.filter (·.name = "data") = [] := by
    refine List.filter_eq_nil_iff.2 fun a ha => ?_
    rw [name_of_queryArguments hquery a ha]
    decide
  have hdata : (dataArguments o t).filter (·.name = "data") = dataArguments o t := by
    unfold dataArguments
    split
    · rfl
    · rfl
  simp only [List.filter_append, hpath', hquery', hdata, List.nil_append, List.append_nil]
  exact List.append_nil _

theorem returnType_of_member {name : String} {o : Operation} {t : TypeTable} {m : Member}
    (h : member name o t = .ok m) : m.returnType = returnType o t := by
  rw [member] at h
  obtain ⟨path, -, h⟩ := bind_eq_ok.1 h
  obtain ⟨query, -, h⟩ := bind_eq_ok.1 h
  cases h
  rfl

/-! ## Modules -/

theorem members_forall₂ {t : TypeTable} {entries : List (String × Operation)} {ms : List Member}
    (h : members t entries = .ok ms) :
    List.Forall₂ (fun e m => member e.1 e.2 t = .ok m) entries ms := by
  induction entries generalizing ms with
  | nil =>
    cases h
    exact .nil
  | cons e rest ih =>
    obtain ⟨name, o⟩ := e
    rw [members] at h
    obtain ⟨m, hm, h⟩ := bind_eq_ok.1 h
    obtain ⟨others, hothers, h⟩ := bind_eq_ok.1 h
    cases h
    exact .cons hm (ih hothers)

theorem length_distinctNames (taken names : List String) :
    (distinctNames taken names).length = names.length := by
  induction names generalizing taken with
  | nil => rfl
  | cons name rest ih => rw [distinctNames, List.length_cons, List.length_cons, ih]

/-- The members of a client are the members of the operations of its group, in order. -/
theorem members_of_client {g : Group} {t : TypeTable} {style : Endpoints.NameStyle}
    {client : ClientModule} (h : g.client t style = .ok client) :
    List.Forall₂ (fun o m => ∃ name, member name o t = .ok m) g.operations client.members := by
  rw [Group.client] at h
  obtain ⟨ms, hms, h⟩ := bind_eq_ok.1 h
  cases h
  -- there are as many names as operations, so none is cut off
  have hlength : g.operations.length ≤
      (distinctNames [] (g.operations.map (memberName style))).length :=
    Nat.le_of_eq (by rw [length_distinctNames, List.length_map])
  have hnamed : List.Forall₂ (fun o m => ∃ name, member name o t = .ok m)
      (((distinctNames [] (g.operations.map (memberName style))).zip g.operations).map Prod.snd)
      ms := by
    rw [List.forall₂_map_left_iff]
    exact (members_forall₂ hms).imp fun e _ hm => ⟨e.1, hm⟩
  rw [List.map_snd_zip hlength] at hnamed
  exact hnamed

theorem exists_of_mem_members {g : Group} {t : TypeTable} {style : Endpoints.NameStyle}
    {client : ClientModule} (h : g.client t style = .ok client) {m : Member}
    (hm : m ∈ client.members) : ∃ o, o ∈ g.operations ∧ ∃ name, member name o t = .ok m := by
  have hpair : ∀ {os : List Operation} {ms : List Member},
      List.Forall₂ (fun o m => ∃ name, member name o t = .ok m) os ms → m ∈ ms →
      ∃ o, o ∈ os ∧ ∃ name, member name o t = .ok m := by
    intro os ms hall
    induction hall with
    | nil => exact fun hmem => absurd hmem List.not_mem_nil
    | cons hhead _ ih =>
      intro hmem
      rcases List.mem_cons.1 hmem with rfl | hmem
      · exact ⟨_, List.mem_cons_self, hhead⟩
      · obtain ⟨o, ho, hname⟩ := ih hmem
        exact ⟨o, List.mem_cons_of_mem _ ho, hname⟩
  exact hpair (members_of_client h) hm

/-- What a member mentions is imported. -/
theorem mem_imports {g : Group} {t : TypeTable} {style : Endpoints.NameStyle}
    {client : ClientModule} (h : g.client t style = .ok client) {m : Member}
    (hm : m ∈ client.members) {n : String} (hn : n ∈ memberMentions t m) : n ∈ client.imports := by
  rw [Group.client] at h
  obtain ⟨ms, -, h⟩ := bind_eq_ok.1 h
  cases h
  rw [Text.mem_sortedNames]
  exact List.mem_flatMap.2 ⟨m, hm, hn⟩

/-- A name of a type that is the type of an argument or of the answer is mentioned. -/
theorem mem_memberMentions {t : TypeTable} {m : Member} {n : String}
    (hn : isIdentifier n.toList = true) (ht : t.contains n = true)
    (h : m.returnType = n ∨ ∃ a, a ∈ m.arguments ∧ a.name ≠ "options" ∧ a.type = n) :
    n ∈ memberMentions t m := by
  refine List.mem_flatMap.2 ⟨n, List.mem_append.2 ?_, ?_⟩
  · rcases h with rfl | ⟨a, ha, hname, rfl⟩
    · exact Or.inr (List.mem_singleton.2 rfl)
    · exact Or.inl (List.mem_map_of_mem (List.mem_filter.2 ⟨ha, decide_eq_true hname⟩))
  · rw [mentions_of_contains hn ht]
    exact List.mem_singleton.2 rfl

end TypedClients.Client
