import TypedClients.Proofs.Types.Drafts

/-!
# Which name a reference to a definition is written as

The second round registers the bodies of definitions, written with the names as they are then.
A definition keeps its draft unless another definition with the same draft, but now with
another body, came before it; in that case it gets one more number, after earlier bodies and
all aliases have already been written with the draft.

* `registered_of_registerAll`: the body of a definition is written with the final names of the
  definitions before it and with the drafts of all others.
* `namedFrom_drafts`: a reference is written as the final name of its definition exactly if it
  goes straight to an earlier definition or the definition keeps its draft; and all
  definitions keep their drafts exactly if those that share a draft have the same body.
* `reference_keeps_stale_draft`: a document with a reference to a definition that did not keep it.
-/

namespace TypedClients.Definitions

open Schema (referenceName)

variable {index : SchemaIndex} {drafts names : Ordered String}

/-! ## The second round -/

/-- The table with the body of a definition registered, and its final name among the names. -/
def withDefinition (t : TypeTable) (name body : String) : TypeTable :=
  let wanted := (t.referenceNames.get? name).getD (Naming.typeName name)
  { t.add wanted body (schemaSource name) with
    referenceNames := t.referenceNames.put name (t.settledName wanted body) }

theorem outcome_registerAll_cons {t r : TypeTable} {name : String} {s : Schema}
    {rest : List (String × Schema)} :
    (registerAll t ((name, s) :: rest)).outcome = .ok r ↔
      ∃ body, s.render t.referenceNames = .ok body ∧
        (registerAll (withDefinition t name body) rest).outcome = .ok r := by
  rw [registerAll, Checked.outcome_bind_eq_ok]
  simp only [Checked.outcome_bind_eq_ok, Checked.outcome_logged, TypeTable.value_register,
    Schema.rendered, Checked.outcome_ofExcept, Except.ok.injEq, exists_eq_left', withDefinition]
  exact Iff.rfl

theorem nameFor_withDefinition (t : TypeTable) (name body tag : String) :
    (withDefinition t name body).nameFor tag =
      if tag = schemaSource name then (withDefinition t name body).referenceNames.get? name
      else t.nameFor tag := by
  have hput : (withDefinition t name body).referenceNames.get? name =
      some (t.settledName ((t.referenceNames.get? name).getD (Naming.typeName name)) body) := by
    rw [withDefinition, Ordered.get?_put, if_pos rfl]
  rw [hput]
  exact TypeTable.nameFor_add t _ body (schemaSource name) tag

/-- What is registered stays registered: types keep their places, and the tags of other
definitions their names. -/
theorem kept_of_registerAll {t r : TypeTable} {defs : List (String × Schema)}
    (h : (registerAll t defs).outcome = .ok r) :
    t.types <+: r.types ∧
      ∀ tag, (∀ n, n ∈ defs.map Prod.fst → tag ≠ schemaSource n) →
      r.nameFor tag = t.nameFor tag := by
  induction defs generalizing t with
  | nil =>
    rw [registerAll, Checked.outcome_pure, Except.ok.injEq] at h
    rw [h]
    exact ⟨List.prefix_refl _, fun _ _ => rfl⟩
  | cons e rest ih =>
    obtain ⟨name, s⟩ := e
    obtain ⟨body, -, hrest⟩ := outcome_registerAll_cons.1 h
    obtain ⟨hstart, htags⟩ := ih hrest
    refine ⟨(TypeTable.prefix_add t _ body (schemaSource name)).trans hstart, ?_⟩
    intro tag htag
    rw [List.map_cons] at htag
    rw [htags tag fun n hn => htag n (List.mem_cons_of_mem _ hn), nameFor_withDefinition,
      if_neg (htag name List.mem_cons_self)]

/-- Registering definitions keeps a table sound. -/
theorem sound_of_registerAll {t r : TypeTable} {defs : List (String × Schema)} (ht : t.Sound)
    (h : (registerAll t defs).outcome = .ok r) : r.Sound := by
  induction defs generalizing t with
  | nil =>
    rw [registerAll, Checked.outcome_pure, Except.ok.injEq] at h
    exact h ▸ ht
  | cons e rest ih =>
    obtain ⟨name, s⟩ := e
    obtain ⟨body, -, hrest⟩ := outcome_registerAll_cons.1 h
    have hadd := ht.add ((t.referenceNames.get? name).getD (Naming.typeName name)) body
      (schemaSource name)
    exact ih (hadd.withReferenceNames _) hrest

/-- The body of each definition is written with the final names of the definitions before it and
with the names from before the round for all others. -/
theorem registered_of_registerAll {t r : TypeTable} {before after : List (String × Schema)}
    {e : String} {s : Schema}
    (h : (registerAll t (before ++ (e, s) :: after)).outcome = .ok r)
    (hn : ((before ++ (e, s) :: after).map Prod.fst).Nodup) :
    ∃ names g, s.render names = .ok g.body ∧ r.get? g.name = some g ∧
      r.nameFor (schemaSource e) = some g.name ∧
      ∀ n, names.get? n =
        if n ∈ before.map Prod.fst then r.nameFor (schemaSource n)
          else t.referenceNames.get? n := by
  -- on the definitions before it, whose final names the table takes over one by one
  induction before generalizing t with
  | nil =>
    obtain ⟨body, hbody, hrest⟩ := outcome_registerAll_cons.1 h
    obtain ⟨hstart, htags⟩ := kept_of_registerAll hrest
    have hmine : ∀ n, n ∈ after.map Prod.fst → schemaSource e ≠ schemaSource n := by
      intro n hmem he
      have hne := (List.nodup_cons.1 hn).1
      exact hne (schemaSource_injective he ▸ hmem)
    let wanted := (t.referenceNames.get? e).getD (Naming.typeName e)
    obtain ⟨g, hg, hb⟩ := TypeTable.get?_settledName_add t wanted body (schemaSource e)
    have hname := TypeTable.name_of_get? hg
    -- the first definition is written with the names the round began with
    refine ⟨t.referenceNames, g, hb ▸ hbody, ?_, ?_, fun n => rfl⟩
    · rw [hname]
      exact TypeTable.get?_of_prefix hstart hg
    · rw [htags _ hmine, nameFor_withDefinition, if_pos rfl, withDefinition, Ordered.get?_put,
        if_pos rfl, hname]
  | cons d before ih =>
    obtain ⟨name, sd⟩ := d
    obtain ⟨body, -, hrest⟩ := outcome_registerAll_cons.1 h
    rw [List.cons_append, List.map_cons, List.nodup_cons] at hn
    obtain ⟨names, g, hr, hget, htag, hnames⟩ := ih hrest hn.2
    refine ⟨names, g, hr, hget, htag, fun n => ?_⟩
    rw [hnames n, List.map_cons]
    by_cases hb : n ∈ before.map Prod.fst
    · rw [if_pos hb, if_pos (List.mem_cons_of_mem _ hb)]
    · rw [if_neg hb]
      by_cases hname : n = name
      · subst hname
        have hfresh : ∀ m, m ∈ (before ++ (e, s) :: after).map Prod.fst →
            schemaSource n ≠ schemaSource m := fun m hm he => hn.1 (schemaSource_injective he ▸ hm)
        rw [if_pos List.mem_cons_self, (kept_of_registerAll hrest).2 _ hfresh,
          nameFor_withDefinition, if_pos rfl]
      · have hmem : n ∉ name :: before.map Prod.fst := by
          rw [List.mem_cons, not_or]
          exact ⟨hname, hb⟩
        rw [if_neg hmem, withDefinition, Ordered.get?_put, if_neg hname]

/-- If definitions that share a name have the same body, written with these names, every one
of them is registered under its name. -/
theorem nameFor_of_alike {names : Ordered String} {all defs : List (String × Schema)}
    (halike : ∀ d s e s', (d, s) ∈ all → (e, s') ∈ all → names.get? d = names.get? e →
      s.render names = s'.render names)
    (hallowed : ∀ d s, (d, s) ∈ all → ∃ x, names.get? d = some x ∧ x ∉ transportNames)
    {t r : TypeTable} (hsub : ∀ e, e ∈ defs → e ∈ all)
    (hnodup : (defs.map Prod.fst).Nodup)
    (hnames : ∀ n, t.referenceNames.get? n = names.get? n)
    (htypes : ∀ g, g ∈ t.types → ∃ d s, (d, s) ∈ all ∧ names.get? d = some g.name ∧
      s.render names = .ok g.body)
    (h : (registerAll t defs).outcome = .ok r) :
    ∀ d, d ∈ defs.map Prod.fst → r.nameFor (schemaSource d) = names.get? d := by
  induction defs generalizing t with
  | nil => exact fun d hd => absurd hd List.not_mem_nil
  | cons e rest ih =>
    obtain ⟨name, s⟩ := e
    obtain ⟨body, hbody, hrest⟩ := outcome_registerAll_cons.1 h
    have hmem := hsub _ List.mem_cons_self
    obtain ⟨x, hx, hfree⟩ := hallowed name s hmem
    rw [s.render_congr_get? hnames] at hbody
    -- whatever has the name already came from a definition with the same name, hence the same
    -- body
    have hhold : t.CanHold body x := by
      refine ⟨hfree, ?_⟩
      cases hg : t.get? x with
      | none => exact Or.inl rfl
      | some g =>
        obtain ⟨d', s', hmem', hd', hs'⟩ := htypes g (TypeTable.mem_of_get? hg)
        rw [TypeTable.name_of_get? hg, ← hx] at hd'
        rw [halike d' s' name s hmem' hmem hd', hbody, Except.ok.injEq] at hs'
        exact Or.inr ⟨g, rfl, hs'.symm⟩
    -- so the name is settled at once, and the table of names stays as it is
    have hstep : withDefinition t name body =
        { t.add x body (schemaSource name) with
          referenceNames := t.referenceNames.put name x } := by
      rw [withDefinition, hnames, hx, Option.getD_some, TypeTable.settledName_eq_self hhold]
    have hput : ∀ n, (t.referenceNames.put name x).get? n = names.get? n := by
      intro n
      rw [Ordered.get?_put, hnames]
      split
      next hn => rw [hn, hx]
      next => rfl
    rw [List.map_cons, List.nodup_cons] at hnodup
    intro d hd
    rw [hstep] at hrest
    rcases List.mem_cons.1 hd with rfl | hd
    · have hmine : ∀ n, n ∈ rest.map Prod.fst → schemaSource d ≠ schemaSource n :=
        fun n hn he => hnodup.1 (schemaSource_injective he ▸ hn)
      rw [(kept_of_registerAll hrest).2 _ hmine, hx]
      have htag := TypeTable.nameFor_add t x body (schemaSource d) (schemaSource d)
      rw [if_pos rfl, TypeTable.settledName_eq_self hhold] at htag
      exact htag
    · refine ih (fun e he => hsub e (List.mem_cons_of_mem _ he)) hnodup.2 hput ?_ hrest d hd
      intro g hg
      rcases (TypeTable.registers_add t ⟨x, body, schemaSource name⟩).types with hsame | hnew
      · exact htypes g (hsame ▸ hg)
      · have hg' : g ∈ t.types ++ [⟨t.settledName x body, body, schemaSource name⟩] := hnew ▸ hg
        rcases List.mem_append.1 hg' with hg' | hg'
        · exact htypes g hg'
        · rw [List.mem_singleton.1 hg', TypeTable.settledName_eq_self hhold]
          exact ⟨name, s, hmem, hx, hbody⟩

/-! ## Both rounds -/

theorem outcome_addDefinitions {t : TypeTable} {tags : List String} :
    (TypeTable.empty.addDefinitions index).outcome = .ok (t, tags) ↔
      ∃ drafts, (draftNames .empty [] index.own).outcome = .ok drafts ∧
        (registerAll { TypeTable.empty with
            referenceNames := (withAliases index drafts index.entries).value } index.own).outcome =
          .ok t ∧ index.own.map (fun e => schemaSource e.1) = tags := by
  rw [TypeTable.addDefinitions, Checked.outcome_bind_eq_ok]
  simp only [Checked.outcome_bind_eq_ok, Checked.outcome_logged, Checked.outcome_pure, value_proper,
    Except.ok.injEq, exists_eq_left', Prod.mk.injEq]
  constructor
  · rintro ⟨drafts, hdrafts, r, hr, rfl, htags⟩
    exact ⟨drafts, hdrafts, hr, htags⟩
  · rintro ⟨drafts, hdrafts, hr, htags⟩
    exact ⟨drafts, hdrafts, t, hr, rfl, htags⟩

theorem nodup_own (hp : index.Proper) : (index.own.map Prod.fst).Nodup :=
  hp.nodup.sublist (List.filter_sublist.map Prod.fst)

theorem mem_own_of_mem_before {before after : List (String × Schema)} {e : String} {s : Schema}
    (hown : index.own = before ++ (e, s) :: after) {n : String} (hn : n ∈ before.map Prod.fst) :
    n ∈ index.own.map Prod.fst := by
  rw [hown, List.map_append]
  exact List.mem_append_left _ hn

/-- An alias is none of the definitions with a type of their own. -/
theorem not_mem_own_of_leads (hp : index.Proper) {ref a d : String} {as : List String}
    (h : index.Leads ref (a :: as) d) : a ∉ index.own.map Prod.fst := by
  intro ha
  obtain ⟨⟨a, s⟩, he, rfl⟩ := List.mem_map.1 ha
  obtain ⟨hmem, hown⟩ := SchemaIndex.mem_own.1 he
  cases h with
  | past hf _ =>
    rw [hp.eq_of_mem hmem (SchemaIndex.mem_of_definition? hf)] at hown
    cases hown

/-- Before any alias is named, the names are the drafts. -/
theorem drafted_of_draftNames (hp : index.Proper)
    (h : (draftNames .empty [] index.own).outcome = .ok drafts) : Drafted index drafts drafts := by
  refine ⟨fun d s hs => ?_, fun a as d x hlead _ hx => ?_⟩
  · obtain ⟨x, hx, -⟩ := (get?_draftNames h d).2 (List.mem_map_of_mem hs)
    exact ⟨x, hx, hx⟩
  · rw [(get?_draftNames h a).1 (not_mem_own_of_leads hp hlead)] at hx
    cases hx

/-- A reference is written as the draft of its definition, or as the name of an earlier definition
that it names itself. -/
theorem referenceName_of_leads (hp : index.Proper)
    (hdrafts : (draftNames .empty [] index.own).outcome = .ok drafts)
    {t : TypeTable} {done : List String}
    (hdone : ∀ n, n ∈ done → n ∈ index.own.map Prod.fst ∧ (t.nameFor (schemaSource n)).isSome)
    (hnames : ∀ n, names.get? n = if n ∈ done then t.nameFor (schemaSource n)
      else (withAliases index drafts index.entries).value.get? n)
    {ref target : String} {as : List String} (h : index.Leads ref as target)
    (hplain : Plain (as ++ [target])) :
    some (referenceName names ref) =
      if as = [] ∧ target ∈ done then t.nameFor (schemaSource target)
      else drafts.get? target := by
  have hd := drafted_of_draftNames hp hdrafts
  obtain ⟨hkeep, halias⟩ := drafted_withAliases hp hd index.entries
  obtain ⟨s, hs, hown⟩ := h.end_mem
  obtain ⟨x, hx, -⟩ := hd.own target s (SchemaIndex.mem_own.2 ⟨hs, hown⟩)
  rw [referenceName]
  cases h with
  -- a direct reference sees whatever name the definition has by now
  | here hf hs =>
    rw [SchemaIndex.refName_of_definition? hp hf (hplain target (List.mem_singleton.2 rfl)),
      hnames target]
    by_cases hmem : target ∈ done
    · rw [if_pos hmem, if_pos ⟨rfl, hmem⟩]
      obtain ⟨y, hy⟩ := Option.isSome_iff_exists.1 (hdone target hmem).2
      rw [hy, Option.getD_some]
    · rw [if_neg hmem, if_neg fun hand => hmem hand.2, hkeep target x hx, hx, Option.getD_some]
  -- a reference past an alias sees the name that the alias got between the rounds
  | @past _ a next _ n as hf hlead =>
    have hplain_a := hplain a List.mem_cons_self
    have hbare := SchemaIndex.definition?_bare hp (SchemaIndex.mem_of_definition? hf) hplain_a
    have hlead_a : index.Leads a (a :: as) target := .past hbare hlead
    have hother : a ∉ done := fun hmem => not_mem_own_of_leads hp hlead_a (hdone a hmem).1
    have hentry := List.mem_map_of_mem (f := Prod.fst) (SchemaIndex.mem_of_definition? hf)
    rw [SchemaIndex.refName_of_definition? hp hf hplain_a, hnames a, if_neg hother,
      if_neg fun hand => List.cons_ne_nil _ _ hand.1, halias a as target hentry hlead_a hplain, hx,
      Option.getD_some]

/-- The names a body is written with are those from before the round, if every definition
before it kept its draft. -/
theorem get?_eq_of_kept (hp : index.Proper)
    (hdrafts : (draftNames .empty [] index.own).outcome = .ok drafts) {t : TypeTable}
    (hkept : ∀ d s, (d, s) ∈ index.own → drafts.get? d = t.nameFor (schemaSource d))
    {done : List String} (hdone : ∀ n, n ∈ done → n ∈ index.own.map Prod.fst)
    (hnames : ∀ n, names.get? n = if n ∈ done then t.nameFor (schemaSource n)
      else (withAliases index drafts index.entries).value.get? n) (n : String) :
    names.get? n = (withAliases index drafts index.entries).value.get? n := by
  rw [hnames n]
  split
  next hmem =>
    obtain ⟨⟨d, s⟩, he, rfl⟩ := List.mem_map.1 (hdone n hmem)
    have hd := drafted_of_draftNames hp hdrafts
    obtain ⟨x, hx, -⟩ := hd.own d s he
    rw [(drafted_withAliases hp hd index.entries).1 d x hx, ← hkept d s he, hx]
  next => rfl

theorem sound_addDefinitions {t : TypeTable} {tags : List String}
    (h : (TypeTable.empty.addDefinitions index).outcome = .ok (t, tags)) : t.Sound := by
  obtain ⟨drafts, -, hreg, -⟩ := outcome_addDefinitions.1 h
  exact sound_of_registerAll (TypeTable.sound_empty.withReferenceNames _) hreg

/-- What the final names of a document have to do with the drafts. -/
structure NamedFrom (index : SchemaIndex) (drafts : Ordered String) (t : TypeTable) : Prop where
  /-- The body of a definition is written with the final names of the definitions before it
  and with the drafts of all others. Thereby a reference that leads to a definition along
  plain names is written as its final name *exactly if* it names the definition itself and
  this one comes earlier, or if the definition kept its draft. -/
  written : ∀ before e s after, index.own = before ++ (e, s) :: after →
    ∃ names g, t.nameFor (schemaSource e) = some g.name ∧ t.get? g.name = some g ∧
      s.render names = .ok g.body ∧
      (∀ n, names.get? n = if n ∈ before.map Prod.fst then t.nameFor (schemaSource n)
        else (withAliases index drafts index.entries).value.get? n) ∧
      ∀ ref as target, ref ∈ s.references → index.Leads ref as target → Plain (as ++ [target]) →
        (some (referenceName names ref) = t.nameFor (schemaSource target) ↔
          as = [] ∧ target ∈ before.map Prod.fst ∨
            drafts.get? target = t.nameFor (schemaSource target))
  /-- All definitions keep their drafts exactly if those with one draft have one body. -/
  kept : (∀ e s, (e, s) ∈ index.own → drafts.get? e = t.nameFor (schemaSource e)) ↔
    ∀ e s e' s', (e, s) ∈ index.own → (e', s') ∈ index.own → drafts.get? e = drafts.get? e' →
      s.render (withAliases index drafts index.entries).value =
        s'.render (withAliases index drafts index.entries).value

section SecondRound

variable {t : TypeTable} (hp : index.Proper)
  (hdrafts : (draftNames .empty [] index.own).outcome = .ok drafts)
  (hreg : (registerAll { TypeTable.empty with
    referenceNames := (withAliases index drafts index.entries).value } index.own).outcome = .ok t)
include hp hreg

/-- What the second round does with one definition. -/
theorem registered_own {before after : List (String × Schema)} {e : String} {s : Schema}
    (hown : index.own = before ++ (e, s) :: after) :
    ∃ names g, s.render names = .ok g.body ∧ t.get? g.name = some g ∧
      t.nameFor (schemaSource e) = some g.name ∧
      ∀ n, names.get? n = if n ∈ before.map Prod.fst then t.nameFor (schemaSource n)
        else (withAliases index drafts index.entries).value.get? n := by
  have hnodup := nodup_own hp
  rw [hown] at hreg hnodup
  exact registered_of_registerAll hreg hnodup

theorem nameFor_isSome_of_own {n : String} (hn : n ∈ index.own.map Prod.fst) :
    (t.nameFor (schemaSource n)).isSome := by
  obtain ⟨⟨e, s⟩, he, rfl⟩ := List.mem_map.1 hn
  obtain ⟨before, after, hown⟩ := List.append_of_mem he
  obtain ⟨names, g, -, -, htag, -⟩ := registered_own hp hreg hown
  rw [htag]
  rfl

include hdrafts

/-- Definitions that keep a shared draft have one body. -/
theorem alike_of_kept
    (hkept : ∀ e s, (e, s) ∈ index.own → drafts.get? e = t.nameFor (schemaSource e))
    {e e' : String} {s s' : Schema} (he : (e, s) ∈ index.own) (he' : (e', s') ∈ index.own)
    (hsame : drafts.get? e = drafts.get? e') :
    s.render (withAliases index drafts index.entries).value =
      s'.render (withAliases index drafts index.entries).value := by
  have hwritten : ∀ e s, (e, s) ∈ index.own →
      ∃ g, s.render (withAliases index drafts index.entries).value = .ok g.body ∧
        t.get? g.name = some g ∧ t.nameFor (schemaSource e) = some g.name := by
    intro e s he
    obtain ⟨before, after, hown⟩ := List.append_of_mem he
    obtain ⟨names, g, hbody, hget, htag, hnames⟩ := registered_own hp hreg hown
    have hearlier := fun n => mem_own_of_mem_before hown (n := n)
    rw [s.render_congr_get? (get?_eq_of_kept hp hdrafts hkept hearlier hnames)] at hbody
    exact ⟨g, hbody, hget, htag⟩
  obtain ⟨g, hbody, hget, htag⟩ := hwritten e s he
  obtain ⟨g', hbody', hget', htag'⟩ := hwritten e' s' he'
  -- both have the same final name, hence are stored as one type
  rw [hkept e s he, hkept e' s' he', htag, htag', Option.some.injEq] at hsame
  rw [hsame, hget', Option.some.injEq] at hget
  rw [hbody, hbody', hget]

/-- Definitions keep their drafts if those with one draft have one body. -/
theorem kept_of_alike
    (halike : ∀ e s e' s', (e, s) ∈ index.own → (e', s') ∈ index.own →
      drafts.get? e = drafts.get? e' →
        s.render (withAliases index drafts index.entries).value =
          s'.render (withAliases index drafts index.entries).value)
    {e : String} {s : Schema} (he : (e, s) ∈ index.own) :
    drafts.get? e = t.nameFor (schemaSource e) := by
  have hd := drafted_of_draftNames hp hdrafts
  have hkeep := (drafted_withAliases hp hd index.entries).1
  have hown : ∀ d s, (d, s) ∈ index.own → ∃ x, drafts.get? d = some x ∧ x ∉ transportNames ∧
      (withAliases index drafts index.entries).value.get? d = some x := by
    intro d s hs
    obtain ⟨x, hx, hfree⟩ := (get?_draftNames hdrafts d).2 (List.mem_map_of_mem hs)
    exact ⟨x, hx, hfree, hkeep d x hx⟩
  obtain ⟨x, hx, -, hx'⟩ := hown e s he
  rw [hx, ← hx']
  refine (nameFor_of_alike ?_ ?_ (fun _ h => h) (nodup_own hp) (fun _ => rfl) ?_ hreg e
    (List.mem_map_of_mem he)).symm
  · intro e s e' s' he he' hsame
    obtain ⟨x, hx, -, hx'⟩ := hown e s he
    obtain ⟨y, hy, -, hy'⟩ := hown e' s' he'
    refine halike e s e' s' he he' ?_
    rw [hx, hy, ← hx', ← hy', hsame]
  · intro d s hs
    obtain ⟨x, -, hfree, hx⟩ := hown d s hs
    exact ⟨x, hx, hfree⟩
  · intro g hg
    exact absurd hg List.not_mem_nil

end SecondRound

/-- Once the definitions of a document are registered, their names follow from the drafts of the
first round. -/
theorem namedFrom_drafts {d : Document} {t : TypeTable} {tags : List String}
    (hd : (d.definitions.map Prod.fst).Nodup) (hi : SchemaIndex.ofDocument d = .ok index)
    (ht : (TypeTable.empty.addDefinitions index).outcome = .ok (t, tags)) :
    ∃ drafts, (draftNames .empty [] index.own).outcome = .ok drafts ∧ NamedFrom index drafts t := by
  have hp := SchemaIndex.proper_ofDocument hi hd
  obtain ⟨drafts, hdrafts, hreg, -⟩ := outcome_addDefinitions.1 ht
  refine ⟨drafts, hdrafts, ?_, ?_, ?_⟩
  · intro before e s after hown
    obtain ⟨names, g, hbody, hget, htag, hnames⟩ := registered_own hp hreg hown
    refine ⟨names, g, htag, hget, hbody, hnames, fun ref as target _ hlead hplain => ?_⟩
    have hdone : ∀ n, n ∈ before.map Prod.fst →
        n ∈ index.own.map Prod.fst ∧ (t.nameFor (schemaSource n)).isSome := by
      intro n hn
      have hn' := mem_own_of_mem_before hown hn
      exact ⟨hn', nameFor_isSome_of_own hp hreg hn'⟩
    rw [referenceName_of_leads hp hdrafts hdone hnames hlead hplain]
    split
    next hdirect => exact iff_of_true rfl (Or.inl hdirect)
    next hdirect => exact (or_iff_right hdirect).symm
  · intro hkept e s e' s' he he' hsame
    exact alike_of_kept hp hdrafts hreg hkept he he' hsame
  · intro halike e s he
    exact kept_of_alike hp hdrafts hreg halike he

/-! ## A draft that is not kept -/

/-- A schema object with one property. -/
def oneProperty (name : String) (v : Value) : Value :=
  .map [(.str "properties", .map [(.str name, v)])]

/-- A reference to a definition, as a document has it. -/
def referenceTo (name : String) : Value := .map [(.str "$ref", .str ("#/definitions/" ++ name))]

/-- A plain string, as a document has it. -/
def plainText : Value := .map [(.str "type", .str "string")]

/-- A document with two definitions, `W` and `w`, that have the same draft and at first the same
body, but no longer once the references in the bodies are written with their own names. -/
def sharedDraft : Document where
  family := .swagger2
  versionText := "2.0"
  info := ⟨none, none, none⟩
  paths := []
  definitions :=
    [("A", oneProperty "q" (referenceTo "w")), ("foo-bar", oneProperty "x" plainText),
      ("FooBar", oneProperty "y" plainText), ("W", oneProperty "p" (referenceTo "foo-bar")),
      ("w", oneProperty "p" (referenceTo "FooBar"))]
  baseUrl := defaultBaseUrl
  root := .map []

/-- What both rounds make of a document. -/
def namesOf? (d : Document) : Option (SchemaIndex × TypeTable × List String) := do
  let index ← (SchemaIndex.ofDocument d).toOption
  let r ← (TypeTable.empty.addDefinitions index).outcome.toOption
  return (index, r)

theorem of_namesOf? {d : Document} {t : TypeTable} {tags : List String}
    (h : namesOf? d = some (index, t, tags)) : SchemaIndex.ofDocument d = .ok index ∧
      (TypeTable.empty.addDefinitions index).outcome = .ok (t, tags) := by
  obtain ⟨i, hi, h⟩ := Option.bind_eq_some_iff.1 h
  obtain ⟨r, hr, h⟩ := Option.bind_eq_some_iff.1 h
  cases h
  exact ⟨Failure.eq_ok_of_toOption hi, Failure.eq_ok_of_toOption hr⟩

theorem namedFrom_sharedDraft :
    ∃ index t tags drafts, SchemaIndex.ofDocument sharedDraft = .ok index ∧
      (TypeTable.empty.addDefinitions index).outcome = .ok (t, tags) ∧
      (draftNames .empty [] index.own).outcome = .ok drafts ∧ NamedFrom index drafts t := by
  have hrun : (namesOf? sharedDraft).isSome := by decide +kernel
  obtain ⟨⟨index, t, tags⟩, hsome⟩ := Option.isSome_iff_exists.1 hrun
  obtain ⟨hi, ht⟩ := of_namesOf? hsome
  have hnodup : (sharedDraft.definitions.map Prod.fst).Nodup := by decide
  obtain ⟨drafts, hdrafts, hnamed⟩ := namedFrom_drafts hnodup hi ht
  exact ⟨index, t, tags, drafts, hi, ht, hdrafts, hnamed⟩

/-- The reference in the body of `A` leads to `w`, whose final name is `W1`; it is written as the
draft `W`, the final name of another definition. -/
theorem reference_keeps_stale_draft :
    ∃ index t tags s, SchemaIndex.ofDocument sharedDraft = .ok index ∧
      (TypeTable.empty.addDefinitions index).outcome = .ok (t, tags) ∧
      ("A", s) ∈ index.own ∧ s.references = ["#/definitions/w"] ∧
      index.Leads "#/definitions/w" [] "w" ∧
      t.nameFor (schemaSource "A") = some "A" ∧
      (t.get? "A").map GeneratedType.body = some "{ q?: W }" ∧
      t.nameFor (schemaSource "w") = some "W1" ∧ t.nameFor (schemaSource "W") = some "W" := by
  have hrun : (namesOf? sharedDraft).any (fun (index, t, _) =>
      ((index.own.find? fun e => e.1 = "A").map fun e => e.2.references) =
          some ["#/definitions/w"] ∧
        ((index.definition? "#/definitions/w").map fun e => (e.1, isAlias e.2)) =
          some ("w", false) ∧
        t.nameFor (schemaSource "A") = some "A" ∧
        (t.get? "A").map GeneratedType.body = some "{ q?: W }" ∧
        t.nameFor (schemaSource "w") = some "W1" ∧ t.nameFor (schemaSource "W") = some "W") =
      true := by decide +kernel
  obtain ⟨⟨index, t, tags⟩, hsome, hfacts⟩ := (Option.any_eq_true _ _).1 hrun
  obtain ⟨hown, hdefinition, hnames⟩ := of_decide_eq_true hfacts
  obtain ⟨hi, ht⟩ := of_namesOf? hsome
  obtain ⟨⟨a, s⟩, hfind, hreferences⟩ := Option.map_eq_some_iff.1 hown
  obtain rfl : a = "A" := by simpa using List.find?_some hfind
  obtain ⟨⟨w, sw⟩, hw, hpair⟩ := Option.map_eq_some_iff.1 hdefinition
  obtain ⟨rfl, halias⟩ := Prod.mk.inj hpair
  exact ⟨index, t, tags, s, hi, ht, List.mem_of_find?_eq_some hfind, hreferences,
    .here hw halias, hnames⟩

end TypedClients.Definitions
