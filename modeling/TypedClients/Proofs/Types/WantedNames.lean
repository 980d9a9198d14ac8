import TypedClients.Proofs.Types.ReferenceNames
import TypedClients.Proofs.Types.Selection

/-!
# Which names are asked for

A type has the name that was asked for, or this name with a number behind it. So a name that
ends in no digit is the name of a type only if it was asked for as it is, and whoever asks for
it first gets it.

* `mem_types_iff_of_addDefinitions`: among the types of definitions such a name is found
  exactly if the transport does not use it and the type name of some definition is this name.
* `origin_of_addEndpoints`: the types of operations are named after requests and answers.
-/

namespace TypedClients

namespace Naming

/-- Whether a name might be one with a number behind it. -/
def endsInDigit (name : String) : Bool := name.toList.getLast?.any Text.isAsciiDigit

theorem getLast?_digits (n : Nat) : (Number.digits n).getLast? = some (Number.digitChar n) := by
  unfold Number.digits
  split
  · rfl
  · exact List.getLast?_concat

/-- A try that does not end in a digit is the name itself. -/
theorem eq_of_candidate {base name : String} {n : Nat} (h : name = candidate base n)
    (hname : endsInDigit name = false) : base = name := by
  cases n with
  | zero => exact h.symm
  | succ n =>
    have hlast : endsInDigit name = true := by
      rw [h, candidate, endsInDigit, String.toList_append, Number.natText, String.toList_ofList,
        List.getLast?_append, getLast?_digits]
      exact isAsciiDigit_digitChar (n + 1)
    rw [hlast] at hname
    cases hname

end Naming

open Naming (candidate endsInDigit)

namespace TypeTable

/-- The name that is settled is the one that is asked for, unless it ends in a digit. -/
theorem eq_of_settledName {t : TypeTable} {wanted body name : String}
    (h : t.settledName wanted body = name) (hname : endsInDigit name = false) : wanted = name := by
  obtain ⟨n, hn, -⟩ := isFirst_settledName t wanted body
  exact Naming.eq_of_candidate (h.symm.trans hn) hname

/-- A registration finds a type for its own settled name and leaves the others alone. -/
theorem get?_add_of_ne {t : TypeTable} {wanted body source name : String}
    (h : name ≠ t.settledName wanted body) :
    (t.add wanted body source).get? name = t.get? name := by
  rw [get?, get?, types_add]
  split
  · rfl
  · rw [List.find?_append, List.find?_singleton, if_neg (by simpa using fun he => h he.symm),
      Option.or_none]

theorem origin_of_add {t : TypeTable} {wanted body source : String} {g : GeneratedType}
    (h : g ∈ (t.add wanted body source).types) :
    g ∈ t.types ∨ ∃ n, g.name = candidate wanted n := by
  rcases (registers_add t ⟨wanted, body, source⟩).types with hsame | hnew
  · exact Or.inl (hsame ▸ h)
  · have h' : g ∈ t.types ++ [⟨t.settledName wanted body, body, source⟩] := hnew ▸ h
    rcases List.mem_append.1 h' with hold | hlast
    · exact Or.inl hold
    · obtain ⟨n, hn, -⟩ := isFirst_settledName t wanted body
      exact Or.inr ⟨n, by rw [List.mem_singleton.1 hlast, hn]⟩

end TypeTable

namespace Definitions

variable {index : SchemaIndex} {drafts : Ordered String} {name : String}

/-! ## Drafts -/

/-- A draft that ends in no digit is the type name of its definition. -/
theorem typeName_of_draftNames {draft : TypeTable} {names : Ordered String}
    {defs : List (String × Schema)} (h : (draftNames draft names defs).outcome = .ok drafts)
    (hname : endsInDigit name = false) {n : String} (hn : n ∈ defs.map Prod.fst)
    (hx : drafts.get? n = some name) : Naming.typeName n = name := by
  induction defs generalizing draft names with
  | nil => exact absurd hn List.not_mem_nil
  | cons e rest ih =>
    obtain ⟨first, s⟩ := e
    obtain ⟨body, -, hrest⟩ := outcome_draftNames_cons.1 h
    -- a later definition of the same name would decide
    by_cases hm : n ∈ rest.map Prod.fst
    · exact ih hrest hm
    · have hfirst : n = first := (List.mem_cons.1 hn).resolve_right hm
      rw [(get?_draftNames hrest n).1 hm, Ordered.get?_put, if_pos hfirst, Option.some.injEq] at hx
      rw [hfirst]
      exact TypeTable.eq_of_settledName hx hname

/-- If the type name of some definition is a name that the transport does not use, this name
is taken from the start, or it is the draft of a definition. -/
theorem exists_draft {draft : TypeTable} {names : Ordered String} {defs : List (String × Schema)}
    (h : (draftNames draft names defs).outcome = .ok drafts) (hnodup : (defs.map Prod.fst).Nodup)
    (hfree : name ∉ transportNames) {e : String} (he : e ∈ defs.map Prod.fst)
    (htype : Naming.typeName e = name) :
    (∃ g, draft.get? name = some g) ∨ ∃ n, n ∈ defs.map Prod.fst ∧ drafts.get? n = some name := by
  induction defs generalizing draft names with
  | nil => exact absurd he List.not_mem_nil
  | cons d rest ih =>
    obtain ⟨first, s⟩ := d
    obtain ⟨body, -, hrest⟩ := outcome_draftNames_cons.1 h
    rw [List.map_cons, List.nodup_cons] at hnodup
    have hdraft := (get?_draftNames hrest first).1 hnodup.1
    rw [Ordered.get?_put, if_pos rfl] at hdraft
    -- either the first definition takes the name, or it is free or taken as it was
    by_cases htake : draft.settledName (Naming.typeName first) body = name
    · exact Or.inr ⟨first, List.mem_cons_self, htake ▸ hdraft⟩
    · cases hnone : draft.get? name with
      | some g => exact Or.inl ⟨g, rfl⟩
      | none =>
        have hrestmem : e ∈ rest.map Prod.fst := by
          refine (List.mem_cons.1 he).resolve_left fun hfirst => htake ?_
          obtain rfl : e = first := hfirst
          rw [htype]
          exact TypeTable.settledName_eq_self ⟨hfree, Or.inl hnone⟩
        rcases ih hrest hnodup.2 hrestmem with ⟨g, hg⟩ | ⟨n, hn, hx⟩
        · rw [TypeTable.get?_add_of_ne fun he => htake he.symm, hnone] at hg
          cases hg
        · exact Or.inr ⟨n, List.mem_cons_of_mem _ hn, hx⟩

/-! ## Final names -/

/-- A final name that ends in no digit is the one that its definition asked for. -/
theorem wanted_of_registerAll {t r : TypeTable} {defs : List (String × Schema)}
    (h : (registerAll t defs).outcome = .ok r) (hnodup : (defs.map Prod.fst).Nodup)
    (hname : endsInDigit name = false) {n : String} (hn : n ∈ defs.map Prod.fst)
    (hfinal : r.nameFor (schemaSource n) = some name) :
    (t.referenceNames.get? n).getD (Naming.typeName n) = name := by
  induction defs generalizing t with
  | nil => exact absurd hn List.not_mem_nil
  | cons e rest ih =>
    obtain ⟨first, s⟩ := e
    obtain ⟨body, -, hrest⟩ := outcome_registerAll_cons.1 h
    rw [List.map_cons, List.nodup_cons] at hnodup
    by_cases hfirst : n = first
    · subst hfirst
      have hmine : ∀ m, m ∈ rest.map Prod.fst → schemaSource n ≠ schemaSource m :=
        fun m hm he => hnodup.1 (schemaSource_injective he ▸ hm)
      rw [(kept_of_registerAll hrest).2 _ hmine, nameFor_withDefinition, if_pos rfl, withDefinition,
        Ordered.get?_put, if_pos rfl, Option.some.injEq] at hfinal
      exact TypeTable.eq_of_settledName hfinal hname
    · have hwanted := ih hrest hnodup.2 ((List.mem_cons.1 hn).resolve_left hfirst)
      rw [withDefinition, Ordered.get?_put, if_neg hfirst] at hwanted
      exact hwanted

/-- Among the types of definitions, a name that ends in no digit is found exactly if the
transport does not use it and some definition has it as its type name. -/
theorem mem_types_iff_of_addDefinitions {t : TypeTable} {tags : List String} (hp : index.Proper)
    (h : (TypeTable.empty.addDefinitions index).outcome = .ok (t, tags))
    (hname : endsInDigit name = false) :
    name ∈ t.types.map GeneratedType.name ↔
      name ∉ transportNames ∧ ∃ e, e ∈ index.own ∧ Naming.typeName e.1 = name := by
  have hsound := sound_addDefinitions h
  have horigin := (origin_of_addDefinitions hp h).2
  obtain ⟨drafts, hdrafts, hreg, htags⟩ := outcome_addDefinitions.1 h
  have hkeep := (drafted_withAliases hp (drafted_of_draftNames hp hdrafts) index.entries).1
  constructor
  · intro hmem
    obtain ⟨g, hg, rfl⟩ := List.mem_map.1 hmem
    refine ⟨hsound.allowed g hg, ?_⟩
    obtain ⟨tag, htag, hfinal⟩ := horigin g hg
    rw [← htags] at htag
    obtain ⟨e, he, rfl⟩ := List.mem_map.1 htag
    have hown := List.mem_map_of_mem (f := Prod.fst) he
    have hwanted := wanted_of_registerAll hreg (nodup_own hp) hname hown hfinal
    -- what a definition asks for in the second round is its draft
    obtain ⟨x, hx, -⟩ := (get?_draftNames hdrafts e.1).2 hown
    simp only [hkeep e.1 x hx, Option.getD_some] at hwanted
    exact ⟨e, he, typeName_of_draftNames hdrafts hname hown (hwanted ▸ hx)⟩
  · rintro ⟨hfree, e, he, htype⟩
    have hown := List.mem_map_of_mem (f := Prod.fst) he
    rcases exists_draft hdrafts (nodup_own hp) hfree hown htype with ⟨g, hg⟩ | ⟨n, hn, hx⟩
    · cases hg
    · exact mem_types_of_registerAll hreg (nodup_own hp) hn (hkeep n _ hx) hfree

end Definitions

namespace Endpoints

variable {index : SchemaIndex} {style : NameStyle}

/-- The names that the types of an operation ask for. -/
def wantedNames (style : NameStyle) (o : Operation) : List String :=
  [Naming.requestName o.method.word o.path style.versions style.window,
    Naming.responseName o.method.word o.path style.versions style.window]

theorem origin_of_addRequest {t r : TypeTable} {o : Operation}
    (h : (addRequest t index style o).outcome = .ok r) {g : GeneratedType} (hg : g ∈ r.types) :
    g ∈ t.types ∨ ∃ wanted n, wanted ∈ wantedNames style o ∧ g.name = candidate wanted n := by
  rw [addRequest] at h
  split at h
  · rw [Checked.outcome_pure, Except.ok.injEq] at h
    exact Or.inl (h ▸ hg)
  · obtain ⟨body, -, h⟩ := Checked.outcome_bind_eq_ok.1 h
    obtain ⟨final, hfinal, h⟩ := Checked.outcome_bind_eq_ok.1 h
    rw [Checked.outcome_logged, TypeTable.value_register, Except.ok.injEq] at hfinal
    cases h
    subst hfinal
    refine (TypeTable.origin_of_add hg).imp_right ?_
    rintro ⟨n, hname⟩
    exact ⟨_, n, List.mem_cons_self, hname⟩

theorem origin_of_addResponse {t r : TypeTable} {o : Operation}
    (h : (addResponse t index style o).outcome = .ok r) {g : GeneratedType} (hg : g ∈ r.types) :
    g ∈ t.types ∨ ∃ wanted n, wanted ∈ wantedNames style o ∧ g.name = candidate wanted n := by
  rw [addResponse] at h
  obtain ⟨body, -, h⟩ := Checked.outcome_bind_eq_ok.1 h
  obtain ⟨final, hfinal, h⟩ := Checked.outcome_bind_eq_ok.1 h
  rw [Checked.outcome_logged, TypeTable.value_register, Except.ok.injEq] at hfinal
  cases h
  subst hfinal
  refine (TypeTable.origin_of_add hg).imp_right ?_
  rintro ⟨n, hname⟩
  exact ⟨_, n, List.mem_cons_of_mem _ (List.mem_singleton.2 rfl), hname⟩

/-- A type that is in the table after the types of operations are added was there before, or
has a name that one of them asked for, perhaps with a number. -/
theorem origin_of_addEndpoints {t r : TypeTable} {os : List Operation}
    (h : (t.addEndpoints index style os).outcome = .ok r) {g : GeneratedType} (hg : g ∈ r.types) :
    g ∈ t.types ∨ ∃ o wanted n, o ∈ os ∧ wanted ∈ wantedNames style o ∧
      g.name = candidate wanted n := by
  induction os generalizing t with
  | nil =>
    rw [TypeTable.addEndpoints, Checked.outcome_pure, Except.ok.injEq] at h
    exact Or.inl (h ▸ hg)
  | cons o rest ih =>
    rw [TypeTable.addEndpoints] at h
    obtain ⟨t', hrequest, h⟩ := Checked.outcome_bind_eq_ok.1 h
    obtain ⟨t'', hresponse, h⟩ := Checked.outcome_bind_eq_ok.1 h
    have hmine : (∃ wanted n, wanted ∈ wantedNames style o ∧ g.name = candidate wanted n) →
        ∃ o' wanted n, o' ∈ o :: rest ∧ wanted ∈ wantedNames style o' ∧
          g.name = candidate wanted n := by
      rintro ⟨wanted, n, hwanted, hname⟩
      exact ⟨o, wanted, n, List.mem_cons_self, hwanted, hname⟩
    rcases ih h with hold | ⟨o', wanted, n, ho', hwanted, hname⟩
    · rcases origin_of_addResponse hresponse hold with hold | hnew
      · exact (origin_of_addRequest hrequest hold).imp_right hmine
      · exact Or.inr (hmine hnew)
    · exact Or.inr ⟨o', wanted, n, List.mem_cons_of_mem _ ho', hwanted, hname⟩

end Endpoints

end TypedClients
