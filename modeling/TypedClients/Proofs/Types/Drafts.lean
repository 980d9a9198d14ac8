import TypedClients.Proofs.Report.Outcome
import TypedClients.Proofs.Schema.References
import TypedClients.Proofs.Types.History

/-!
# Drafts of type names

Definitions are named in two rounds. The first one settles a *draft* name for each definition
that is no alias; an alias is then named after the draft of the definition it leads to.

* `get?_draftNames`: the first round names its definitions and no others.
* `Reaches`: the way of an alias to a draft; `Settled`: what a table of names holds while
  aliases are named.
* `settled_withAliases`: naming aliases one after the other gives them the drafts that they reach.
* `drafted_withAliases`: every alias that leads to a definition is named, and names that were
  there are kept.
-/

namespace TypedClients

open Definitions (isAlias)

/-- The definitions that get a type of their own, in document order. -/
def SchemaIndex.own (index : SchemaIndex) : List (String × Schema) :=
  index.entries.filter fun e => !isAlias e.2

theorem SchemaIndex.mem_own {index : SchemaIndex} {e : String × Schema} :
    e ∈ index.own ↔ e ∈ index.entries ∧ isAlias e.2 = false := by
  rw [own, List.mem_filter, Bool.not_eq_true']

/-- The tag of a definition tells which one it is. -/
theorem schemaSource_injective {a b : String} (h : schemaSource a = schemaSource b) : a = b := by
  have h' := congrArg String.toList h
  rw [schemaSource, schemaSource, String.toList_append, String.toList_append] at h'
  exact String.toList_inj.1 (List.append_cancel_left h')

namespace Definitions

open Schema (refName referenceName)

theorem value_proper (entries : List (String × Schema)) :
    (proper entries).value = entries.filter fun e => !isAlias e.2 := by
  induction entries with
  | nil => rfl
  | cons e rest ih =>
    obtain ⟨name, s⟩ := e
    cases s with
    | reference ref n => exact ih
    | _ => exact congrArg ((name, _) :: ·) ih

/-! ## The first round -/

theorem outcome_draftNames_cons {draft : TypeTable} {names r : Ordered String} {name : String}
    {s : Schema} {rest : List (String × Schema)} :
    (draftNames draft names ((name, s) :: rest)).outcome = .ok r ↔
      ∃ body, s.render [] = .ok body ∧
        (draftNames (draft.add (Naming.typeName name) body (schemaSource name))
          (names.put name (draft.settledName (Naming.typeName name) body)) rest).outcome =
            .ok r := by
  rw [draftNames, Checked.outcome_bind_eq_ok]
  simp only [Checked.outcome_bind_eq_ok, Checked.outcome_logged, TypeTable.value_register,
    Schema.rendered, Checked.outcome_ofExcept, Except.ok.injEq, exists_eq_left']

/-- The first round names the definitions, with names that the transport does not use, and no
others. -/
theorem get?_draftNames {draft : TypeTable} {names drafts : Ordered String}
    {defs : List (String × Schema)} (h : (draftNames draft names defs).outcome = .ok drafts)
    (n : String) :
    (n ∉ defs.map Prod.fst → drafts.get? n = names.get? n) ∧
      (n ∈ defs.map Prod.fst → ∃ final, drafts.get? n = some final ∧ final ∉ transportNames) := by
  induction defs generalizing draft names with
  | nil =>
    rw [draftNames, Checked.outcome_pure, Except.ok.injEq] at h
    rw [h]
    exact ⟨fun _ => rfl, fun hn => absurd hn List.not_mem_nil⟩
  | cons e rest ih =>
    obtain ⟨name, s⟩ := e
    obtain ⟨body, -, hrest⟩ := outcome_draftNames_cons.1 h
    obtain ⟨hother, hown⟩ := ih hrest
    rw [List.map_cons]
    refine ⟨fun hn => ?_, fun hn => ?_⟩
    · rw [List.mem_cons, not_or] at hn
      rw [hother hn.2, Ordered.get?_put, if_neg hn.1]
    -- a later definition of the same name would decide
    · by_cases hm : n ∈ rest.map Prod.fst
      · exact hown hm
      · have hname : n = name := (List.mem_cons.1 hn).resolve_right hm
        rw [hother hm, Ordered.get?_put, if_pos hname]
        exact ⟨_, rfl, (TypeTable.canHold_settledName draft _ body).1⟩

/-! ## Following aliases -/

variable {index : SchemaIndex} {drafts names : Ordered String}

/-- One step of following aliases. -/
theorem value_aliasTarget (index : SchemaIndex) (names : Ordered String) (seen : List String)
    (current : String) : (aliasTarget index names seen current).value =
      match names.get? current, index.lookup? current with
      | some name, _ => some name
      | none, some (.reference ref _) =>
        if current ∈ seen then none
        else (aliasTarget index names (current :: seen) (refName ref)).value
      | none, _ => none := by
  rw [aliasTarget]
  split
  next name hname => rw [hname]; rfl
  next hname =>
    rw [hname]
    split
    next ref n hlookup =>
      rw [hlookup]
      dsimp only
      split <;> rfl
    next s hs hlookup =>
      rw [hlookup]
      cases s with
      | reference ref n => exact absurd rfl (hs ref n)
      | _ => rfl
    next hlookup => rw [hlookup]; rfl

theorem aliasTarget_of_named {seen : List String} {current x : String}
    (h : names.get? current = some x) : (aliasTarget index names seen current).value = some x := by
  rw [value_aliasTarget, h]

theorem aliasTarget_of_alias {seen : List String} {current next : String} {n : Bool}
    (h : names.get? current = none) (hl : index.lookup? current = some (.reference next n))
    (hs : current ∉ seen) :
    (aliasTarget index names seen current).value =
      (aliasTarget index names (current :: seen) (refName next)).value := by
  rw [value_aliasTarget, h, hl]
  exact if_neg hs

/-- From a name to a draft, past the aliases of a list: each of them has no draft and is left
for the name at the end of its reference. -/
inductive Reaches (index : SchemaIndex) (drafts : Ordered String) :
    String → List String → String → Prop
  | here {n x : String} (h : drafts.get? n = some x) : Reaches index drafts n [] x
  | past {a ref x : String} {k : Bool} {as : List String} (hnone : drafts.get? a = none)
      (hl : index.lookup? a = some (.reference ref k))
      (hr : Reaches index drafts (refName ref) as x) :
      Reaches index drafts a (a :: as) x

namespace Reaches

variable {n a x x' : String} {as as' : List String}

theorem unique (h : Reaches index drafts n as x) (h' : Reaches index drafts n as' x') :
    as = as' ∧ x = x' := by
  induction h generalizing as' with
  | here h =>
    cases h' with
    | here h' => exact ⟨rfl, Option.some.inj (h.symm.trans h')⟩
    | past hnone => cases h.symm.trans hnone
  | past hnone hl _ ih =>
    cases h' with
    | here h' => cases h'.symm.trans hnone
    | past _ hl' hr' =>
      cases hl.symm.trans hl'
      obtain ⟨rfl, rfl⟩ := ih hr'
      exact ⟨rfl, rfl⟩

/-- From an alias on the way the rest of the way is its own. -/
theorem of_mem (h : Reaches index drafts n as x) (ha : a ∈ as) :
    ∃ back, back <:+ as ∧ Reaches index drafts a back x := by
  induction h with
  | here => exact absurd ha List.not_mem_nil
  | past hnone hl hr ih =>
    rcases List.mem_cons.1 ha with rfl | ha
    · exact ⟨_, List.suffix_rfl, .past hnone hl hr⟩
    · obtain ⟨back, hback, hway⟩ := ih ha
      exact ⟨back, hback.trans (List.suffix_cons _ _), hway⟩

/-- A way passes no alias twice, since from the second time on it would have to be the same. -/
theorem nodup (h : Reaches index drafts n as x) : as.Nodup := by
  induction h with
  | here => exact List.nodup_nil
  | past hnone hl hr ih =>
    refine List.nodup_cons.2 ⟨fun ha => ?_, ih⟩
    obtain ⟨back, hback, hway⟩ := hr.of_mem ha
    have hlength := hback.length_le
    rw [← ((Reaches.past hnone hl hr).unique hway).1, List.length_cons] at hlength
    exact Nat.not_succ_le_self _ hlength

theorem exists_draft (h : Reaches index drafts n as x) : ∃ m, drafts.get? m = some x := by
  induction h with
  | here h => exact ⟨_, h⟩
  | past _ _ _ ih => exact ih

end Reaches

/-- What a table of names holds while aliases are named: the drafts, and under all other names
only drafts that are reached from there. -/
structure Settled (index : SchemaIndex) (drafts names : Ordered String) : Prop where
  kept : ∀ n x, drafts.get? n = some x → names.get? n = some x
  reached : ∀ n x, names.get? n = some x → ∃ as, Reaches index drafts n as x

/-- The drafts themselves are such a table. -/
theorem settled_drafts : Settled index drafts drafts := ⟨fun _ _ h => h, fun _ _ h => ⟨[], .here h⟩⟩

/-- Following aliases finds nothing but the draft that they reach. -/
theorem reaches_of_aliasTarget (hs : Settled index drafts names) {seen : List String}
    {current x : String} (h : (aliasTarget index names seen current).value = some x) :
    ∃ as, Reaches index drafts current as x := by
  rw [value_aliasTarget] at h
  split at h
  next y hy => exact hs.reached current x (hy.trans h)
  next ref k hnone hlookup =>
    split at h
    next => cases h
    next hseen =>
      have hdraft : drafts.get? current = none := by
        refine Option.eq_none_iff_forall_ne_some.2 fun y hy => ?_
        cases hnone.symm.trans (hs.kept current y hy)
      obtain ⟨as, hr⟩ := reaches_of_aliasTarget hs h
      exact ⟨current :: as, .past hdraft hlookup hr⟩
  next => cases h
termination_by index.unseen seen
decreasing_by exact SchemaIndex.unseen_lt (by assumption) (by assumption)

/-- Following aliases finds the draft that they reach. -/
theorem aliasTarget_of_reaches (hs : Settled index drafts names)
    {seen as : List String} {n x : String} (h : Reaches index drafts n as x)
    (hseen : ∀ a, a ∈ as → a ∉ seen) :
    (aliasTarget index names seen n).value = some x := by
  have hnodup := h.nodup
  -- on the way; `seen` grows by the alias that is left behind
  induction h generalizing seen with
  | @here n x h => exact aliasTarget_of_named (hs.kept n x h)
  | @past a ref x k as hnone hl hr ih =>
    -- an alias with a name has the draft already, one without is followed
    cases hy : names.get? a with
    | some y =>
      obtain ⟨as', hr'⟩ := hs.reached a y hy
      obtain ⟨-, rfl⟩ := (Reaches.past hnone hl hr).unique hr'
      exact aliasTarget_of_named hy
    | none =>
      rw [List.nodup_cons] at hnodup
      rw [aliasTarget_of_alias hy hl (hseen a List.mem_cons_self)]
      refine ih (fun b hb hmem => ?_) hnodup.2
      rcases List.mem_cons.1 hmem with rfl | hmem
      · exact hnodup.1 hb
      · exact hseen b (List.mem_cons_of_mem _ hb) hmem

/-- The table of names with one more definition, if that is an alias that leads somewhere. -/
def withAlias (index : SchemaIndex) (names : Ordered String) (name : String) : Ordered String :=
  if names.has name then names
  else match (aliasTarget index names [] name).value with
    | some target => names.put name target
    | none => names

theorem value_withAliases_cons (name : String) (s : Schema) (rest : List (String × Schema)) :
    (withAliases index names ((name, s) :: rest)).value =
      (withAliases index (withAlias index names name) rest).value := by
  rw [withAliases, withAlias]
  split
  · rfl
  · rw [Logged.value_bind]
    cases (aliasTarget index names [] name).value with
    | none => rfl
    | some target => rfl

theorem get?_withAlias_of_some {n x name : String} (h : names.get? n = some x) :
    (withAlias index names name).get? n = some x := by
  unfold withAlias
  split
  · exact h
  next hhas =>
    split
    · have hne : n ≠ name := by
        rintro rfl
        exact hhas (by rw [Ordered.has, h]; rfl)
      rw [Ordered.get?_put, if_neg hne, h]
    · exact h

theorem settled_withAlias (hs : Settled index drafts names) (name : String) :
    Settled index drafts (withAlias index names name) := by
  refine ⟨fun n x hx => get?_withAlias_of_some (hs.kept n x hx), fun n x hx => ?_⟩
  unfold withAlias at hx
  split at hx
  · exact hs.reached n x hx
  · split at hx
    next target htarget =>
      rw [Ordered.get?_put] at hx
      split at hx
      next hn => exact hn ▸ reaches_of_aliasTarget hs (htarget.trans hx)
      next => exact hs.reached n x hx
    next => exact hs.reached n x hx

/-- An alias that reaches a draft is named after it. -/
theorem get?_withAlias (hs : Settled index drafts names) {a x : String} {as : List String}
    (h : Reaches index drafts a as x) : (withAlias index names a).get? a = some x := by
  unfold withAlias
  split
  next hhas =>
    obtain ⟨y, hy⟩ := Option.isSome_iff_exists.1 hhas
    obtain ⟨as', h'⟩ := hs.reached a y hy
    rw [hy, (h.unique h').2]
  next =>
    rw [aliasTarget_of_reaches hs h fun _ _ => List.not_mem_nil]
    exact (Ordered.get?_put names a a x).trans (if_pos rfl)

theorem get?_withAliases_of_some {n x : String} (h : names.get? n = some x)
    (order : List (String × Schema)) : (withAliases index names order).value.get? n = some x := by
  induction order generalizing names with
  | nil => exact h
  | cons e rest ih =>
    obtain ⟨name, s⟩ := e
    rw [value_withAliases_cons]
    exact ih (get?_withAlias_of_some h)

theorem get?_withAlias_of_ne {n name : String} (h : n ≠ name) :
    (withAlias index names name).get? n = names.get? n := by
  unfold withAlias
  split
  · rfl
  · split
    · rw [Ordered.get?_put, if_neg h]
    · rfl

theorem get?_withAliases_of_not_mem {n : String} {order : List (String × Schema)}
    (h : n ∉ order.map Prod.fst) : (withAliases index names order).value.get? n = names.get? n := by
  induction order generalizing names with
  | nil => rfl
  | cons e rest ih =>
    obtain ⟨name, s⟩ := e
    rw [List.map_cons, List.mem_cons, not_or] at h
    rw [value_withAliases_cons, ih h.2, get?_withAlias_of_ne h.1]

/-- Naming aliases one after the other gives each of them the draft that it reaches, and all
others no name. -/
theorem settled_withAliases (hs : Settled index drafts names) (order : List (String × Schema)) :
    Settled index drafts (withAliases index names order).value ∧
      ∀ a as x, a ∈ order.map Prod.fst → Reaches index drafts a as x →
        (withAliases index names order).value.get? a = some x := by
  induction order generalizing names with
  | nil => exact ⟨hs, fun _ _ _ ha => absurd ha List.not_mem_nil⟩
  | cons e rest ih =>
    obtain ⟨name, s⟩ := e
    obtain ⟨hsettled, hnamed⟩ := ih (settled_withAlias hs name)
    rw [value_withAliases_cons]
    refine ⟨hsettled, fun a as x ha h => ?_⟩
    rcases List.mem_cons.1 ha with rfl | ha
    · exact get?_withAliases_of_some (get?_withAlias hs h) rest
    · exact hnamed a as x ha h

/-! ## Aliases with plain names -/

/-- The names of a list have no slash in them. -/
def Plain (names : List String) : Prop := ∀ n, n ∈ names → '/' ∉ n.toList

/-- What a table of names holds between the two rounds: every definition has its draft, and an
alias that is named has the draft of the definition it leads to. -/
structure Drafted (index : SchemaIndex) (drafts names : Ordered String) : Prop where
  own : ∀ d s, (d, s) ∈ index.own → ∃ x, names.get? d = some x ∧ drafts.get? d = some x
  target : ∀ a as d x, index.Leads a (a :: as) d → Plain (a :: as ++ [d]) →
    names.get? a = some x → drafts.get? d = some x

/-- A reference that leads to a definition along plain names reaches its draft. -/
theorem reaches_of_leads (hp : index.Proper) (hd : Drafted index drafts drafts) {ref d : String}
    {as : List String} (h : index.Leads ref as d) (hplain : Plain (as ++ [d])) :
    ∃ as x, drafts.get? d = some x ∧ Reaches index drafts (refName ref) as x := by
  induction h with
  | @here ref d s hf hs =>
    rw [SchemaIndex.refName_of_definition? hp hf (hplain d (List.mem_singleton.2 rfl))]
    obtain ⟨x, hx, -⟩ := hd.own d s (SchemaIndex.mem_own.2 ⟨SchemaIndex.mem_of_definition? hf, hs⟩)
    exact ⟨[], x, hx, .here hx⟩
  | @past ref a next d n as hf hlead ih =>
    have hplain_a := hplain a List.mem_cons_self
    have hbare := SchemaIndex.definition?_bare hp (SchemaIndex.mem_of_definition? hf) hplain_a
    rw [SchemaIndex.refName_of_definition? hp hf hplain_a]
    cases hx : drafts.get? a with
    | some x => exact ⟨[], x, hd.target a as d x (.past hbare hlead) hplain hx, .here hx⟩
    | none =>
      have hlookup : index.lookup? a = some (.reference next n) := by
        rw [SchemaIndex.lookup?_eq, hbare]
        rfl
      obtain ⟨as', x, hx', hr⟩ := ih fun m hm => hplain m (List.mem_cons_of_mem _ hm)
      exact ⟨a :: as', x, hx', .past hx hlookup hr⟩

/-- The aliases among some definitions are named: each one that leads to a definition along plain
names has the draft of that definition. Names that were there are kept. -/
theorem drafted_withAliases (hp : index.Proper) (hd : Drafted index drafts drafts)
    (entries : List (String × Schema)) :
    (∀ n x, drafts.get? n = some x → (withAliases index drafts entries).value.get? n = some x) ∧
      ∀ a as d, a ∈ entries.map Prod.fst → index.Leads a (a :: as) d → Plain (a :: as ++ [d]) →
        (withAliases index drafts entries).value.get? a = drafts.get? d := by
  refine ⟨fun n x hx => get?_withAliases_of_some hx entries, fun a as d ha h hplain => ?_⟩
  obtain ⟨as', x, hx, hr⟩ := reaches_of_leads hp hd h hplain
  rw [Schema.refName_of_not_mem (hplain a List.mem_cons_self)] at hr
  rw [hx]
  exact (settled_withAliases settled_drafts entries).2 a as' x ha hr

end Definitions

end TypedClients
