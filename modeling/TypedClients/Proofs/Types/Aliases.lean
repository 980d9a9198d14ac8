import TypedClients.Proofs.Types.Drafts

/-!
# Where aliases lead

An alias is followed from name to name, each time to the last segment of its reference. The
way ends at a definition with a type of its own, at a name that no definition has, or at an
alias that was passed before. Only in the first case does the alias get a name, the draft of
that definition. While aliases are named one after the other, the table that is consulted
grows; what it holds for an alias is never anything but the draft at the end of the way, so it
does not matter which of them comes first. The search for a name follows such a way, and it
stops at the latest when it meets an alias again.

* `SchemaIndex.exists_follows`: every way ends, after as many aliases as there are definitions
  at most.
* `SchemaIndex.Follows.rest`: all ways from a name are parts of the one to a definition, if
  there is one.
* `Definitions.reaches_iff`: the drafts that aliases are named after are those at the ends of
  such ways.
* `Definitions.search_aliasTarget`: the search for a name ends, whatever the table holds by then.
* `Definitions.names_of_aliases`: which names aliases have, in whatever order they are named.
-/

namespace TypedClients

open Definitions (isAlias)
open Schema (refName)

/-! ## The way of an alias -/

namespace SchemaIndex

variable {index : SchemaIndex}

/-- From one name to another, past the aliases of a list: each of them is left for the name at
the end of its reference. -/
inductive Follows (index : SchemaIndex) : String → List String → String → Prop
  | here (n : String) : Follows index n [] n
  | past {a ref e : String} {n : Bool} {as : List String}
    (h : (a, .reference ref n) ∈ index.entries)
      (hf : Follows index (refName ref) as e) : Follows index a (a :: as) e

/-- A name does not begin like a full reference. -/
def Bare (index : SchemaIndex) (n : String) : Prop := ¬index.base.toList <+: n.toList

theorem Proper.bare_refName (hp : index.Proper) (ref : String) : index.Bare (refName ref) := by
  rintro ⟨rest, hrest⟩
  obtain ⟨start, hstart⟩ := hp.base
  refine Schema.not_mem_refName ref ?_
  rw [← hrest, hstart, String.toList_append]
  exact List.mem_append_left _ (List.mem_append_right _ (by decide))

/-- Under such a name only the definition of that name is found. -/
theorem Proper.lookup?_eq_some_iff (hp : index.Proper) {n : String}
    (hn : index.Bare n) {s : Schema} :
    index.lookup? n = some s ↔ (n, s) ∈ index.entries := by
  have hfound : ∀ s, index.lookup? n = some s → (n, s) ∈ index.entries := by
    intro s h
    obtain ⟨name, hmem, hnames⟩ := lookup?_eq_some h
    rw [names, Bool.or_eq_true, beq_iff_eq, beq_iff_eq] at hnames
    rcases hnames with rfl | rfl
    · exact hmem
    · exact absurd (String.toList_append ▸ List.prefix_append _ _) hn
  refine ⟨hfound s, fun h => ?_⟩
  cases hl : index.lookup? n with
  | some s' => rw [hp.eq_of_mem (hfound s' hl) h]
  | none =>
    rw [lookup?, Option.map_eq_none_iff, List.find?_eq_none] at hl
    refine absurd ?_ (hl _ (List.mem_reverse.2 h))
    rw [names, beq_self_eq_true, Bool.true_or]

theorem Proper.isAlias_eq_false (hp : index.Proper) {d : String} {s s' : Schema}
    (h : (d, s) ∈ index.own) (h' : (d, s') ∈ index.entries) : isAlias s' = false := by
  obtain ⟨hmem, hown⟩ := mem_own.1 h
  rwa [← hp.eq_of_mem hmem h']

namespace Follows

variable {n d e : String} {s : Schema} {as as' : List String}

theorem exists_reference (h : index.Follows n as e) {a : String} (ha : a ∈ as) :
    ∃ ref k, (a, .reference ref k) ∈ index.entries := by
  induction h with
  | here => exact absurd ha List.not_mem_nil
  | past hmem _ ih =>
    rcases List.mem_cons.1 ha with rfl | ha
    · exact ⟨_, _, hmem⟩
    · exact ih ha

theorem mem_entries (h : index.Follows n as d) (hd : (d, s) ∈ index.own) :
    n ∈ index.entries.map Prod.fst := by
  cases h with
  | here => exact List.mem_map_of_mem (mem_own.1 hd).1
  | past hmem => exact List.mem_map_of_mem hmem

/-- All ways from a name are parts of the one to a definition with a type of its own. -/
theorem rest (hp : index.Proper) (h : index.Follows n as d) (hd : (d, s) ∈ index.own)
    (h' : index.Follows n as' e) : ∃ rest, as = as' ++ rest ∧ index.Follows e rest d := by
  induction h' generalizing as with
  | here => exact ⟨as, rfl, h⟩
  | past hmem' _ ih =>
    cases h with
    | here => cases hp.isAlias_eq_false hd hmem'
    | past hmem hf =>
      cases hp.eq_of_mem hmem hmem'
      obtain ⟨rest, rfl, hrest⟩ := ih hf
      exact ⟨rest, rfl, hrest⟩

/-- A name from which a way leads nowhere or back to an alias leads to no definition. -/
theorem not_own (hp : index.Proper) (h : index.Follows n as e)
    (he : e ∉ index.entries.map Prod.fst ∨ e ∈ as) (h' : index.Follows n as' d)
    (hnodup : as'.Nodup) :
    (d, s) ∉ index.own := by
  intro hd
  obtain ⟨rest, rfl, hrest⟩ := h'.rest hp hd h
  -- the definition itself is a name of the index and no alias, so the way goes on from `e`
  cases hrest with
  | here =>
    rcases he with he | he
    · exact he (List.mem_map_of_mem (mem_own.1 hd).1)
    · obtain ⟨ref, k, hmem⟩ := h.exists_reference he
      cases hp.isAlias_eq_false hd hmem
  | past hmem hf =>
    rcases he with he | he
    · exact he (List.mem_map_of_mem hmem)
    · exact (List.nodup_append.1 hnodup).2.2 e he e List.mem_cons_self rfl

end Follows

/-- A way can be followed to where it ends, or to the first alias that was seen before. -/
theorem exists_follows_of_seen (hp : index.Proper) {n : String} (hn : index.Bare n)
    (seen : List String) :
    ∃ as e, index.Follows n as e ∧ as.Nodup ∧ (∀ a, a ∈ as → a ∉ seen) ∧
      ((∃ s, (e, s) ∈ index.own) ∨ e ∉ index.entries.map Prod.fst ∨ e ∈ as ∨ e ∈ seen) := by
  have hnone : ∀ a, a ∈ ([] : List String) → a ∉ seen := fun _ ha => absurd ha List.not_mem_nil
  by_cases hmem : n ∈ index.entries.map Prod.fst
  · obtain ⟨⟨n, s⟩, he, rfl⟩ := List.mem_map.1 hmem
    cases s with
    | reference ref k =>
      by_cases hseen : n ∈ seen
      · exact ⟨[], n, .here n, List.nodup_nil, hnone, Or.inr (Or.inr (Or.inr hseen))⟩
      · have hlookup := (hp.lookup?_eq_some_iff hn).2 he
        obtain ⟨as, e, hf, hnodup, hfresh, hend⟩ :=
          exists_follows_of_seen hp (hp.bare_refName ref) (n :: seen)
        refine ⟨n :: as, e, .past he hf, ?_, ?_, ?_⟩
        · exact List.nodup_cons.2 ⟨fun ha => hfresh n ha List.mem_cons_self, hnodup⟩
        · exact List.forall_mem_cons.2
            ⟨hseen, fun a ha hs => hfresh a ha (List.mem_cons_of_mem _ hs)⟩
        · rw [List.mem_cons] at hend ⊢
          tauto
    | _ => exact ⟨[], n, .here n, List.nodup_nil, hnone, Or.inl ⟨_, mem_own.2 ⟨he, rfl⟩⟩⟩
  · exact ⟨[], n, .here n, List.nodup_nil, hnone, Or.inr (Or.inl hmem)⟩
termination_by index.unseen seen
decreasing_by exact unseen_lt hlookup hseen

/-- Every way ends: at a definition with a type of its own, at a name that no definition has,
or at an alias that was passed before. It passes no alias twice. -/
theorem exists_follows (hp : index.Proper) {n : String} (hn : index.Bare n) :
    ∃ as e, index.Follows n as e ∧ as.Nodup ∧ as.length ≤ index.entries.length ∧
      ((∃ s, (e, s) ∈ index.own) ∨ e ∉ index.entries.map Prod.fst ∨ e ∈ as) := by
  obtain ⟨as, e, hf, hnodup, -, hend⟩ := exists_follows_of_seen hp hn []
  have hnames : as ⊆ index.entries.map Prod.fst := by
    intro a ha
    obtain ⟨ref, k, hmem⟩ := hf.exists_reference ha
    exact List.mem_map_of_mem hmem
  have hlength := (hnodup.subperm hnames).length_le
  rw [List.length_map] at hlength
  refine ⟨as, e, hf, hnodup, hlength, ?_⟩
  rcases hend with hown | hnone | hcycle | hseen
  · exact Or.inl hown
  · exact Or.inr (Or.inl hnone)
  · exact Or.inr (Or.inr hcycle)
  · exact absurd hseen List.not_mem_nil

end SchemaIndex

/-! ## The names of aliases -/

namespace Definitions

variable {index : SchemaIndex} {drafts : Ordered String}

/-- A name reaches a draft along the way to the definition that the draft is of. -/
theorem reaches_iff (hp : index.Proper)
    (hdrafts : (draftNames .empty [] index.own).outcome = .ok drafts) {n x : String}
    {as : List String} (hn : index.Bare n) :
    Reaches index drafts n as x ↔
      ∃ d s, index.Follows n as d ∧ (d, s) ∈ index.own ∧ drafts.get? d = some x := by
  constructor
  · intro h
    induction h with
    | @here n x h =>
      by_cases hmem : n ∈ index.own.map Prod.fst
      · obtain ⟨⟨n, s⟩, hs, rfl⟩ := List.mem_map.1 hmem
        exact ⟨n, s, .here n, hs, h⟩
      · cases ((get?_draftNames hdrafts n).1 hmem).symm.trans h
    | @past a ref x k as hnone hl hr ih =>
      obtain ⟨d, s, hf, hd, hx⟩ := ih (hp.bare_refName ref)
      exact ⟨d, s, .past ((hp.lookup?_eq_some_iff hn).1 hl) hf, hd, hx⟩
  · rintro ⟨d, s, h, hd, hx⟩
    induction h with
    | here => exact .here hx
    | @past a ref d k as hmem hf ih =>
      have hnone : drafts.get? a = none := by
        refine (get?_draftNames hdrafts a).1 fun ha => ?_
        obtain ⟨⟨a, s'⟩, hs', rfl⟩ := List.mem_map.1 ha
        cases hp.isAlias_eq_false hs' hmem
      exact .past hnone ((hp.lookup?_eq_some_iff hn).2 hmem) (ih (hp.bare_refName ref) hd hx)

/-- How the search for the name of an alias goes on: it stops at a name in the table, at one
that belongs to no alias and at an alias that it has seen, and takes another turn otherwise.
-/
inductive Search (index : SchemaIndex) (names : Ordered String) :
    List String → String → Nat → Option String → Prop
  | named {seen : List String} {n x : String} (h : names.get? n = some x) :
      Search index names seen n 0 (some x)
  | ended {seen : List String} {n : String} (hnone : names.get? n = none)
      (hl : ∀ ref k, index.lookup? n ≠ some (.reference ref k)) : Search index names seen n 0 none
  | again {seen : List String} {n ref : String} {k : Bool} (hnone : names.get? n = none)
      (hl : index.lookup? n = some (.reference ref k)) (hs : n ∈ seen) :
      Search index names seen n 0 none
  | turn {seen : List String} {n ref : String} {k : Bool} {turns : Nat} {r : Option String}
      (hnone : names.get? n = none) (hl : index.lookup? n = some (.reference ref k)) (hs : n ∉ seen)
      (h : Search index names (n :: seen) (refName ref) turns r) :
      Search index names seen n (turns + 1) r

/-- The search ends, whatever the table holds: each turn is spent on an alias that was not
seen before. -/
theorem search_aliasTarget (hp : index.Proper) {n : String} (hn : index.Bare n)
    (names : Ordered String) (seen : List String) :
    ∃ turns, turns ≤ ((index.entries.map Prod.fst).filter fun k => !seen.contains k).length ∧
      Search index names seen n turns (aliasTarget index names seen n).value := by
  rw [value_aliasTarget]
  split
  next x hx => exact ⟨0, Nat.zero_le _, .named hx⟩
  next ref k hnone hlookup =>
    split
    next hseen => exact ⟨0, Nat.zero_le _, .again hnone hlookup hseen⟩
    next hseen =>
      obtain ⟨turns, hturns, h⟩ := search_aliasTarget hp (hp.bare_refName ref) names (n :: seen)
      have hmem : n ∈ index.entries.map Prod.fst :=
        List.mem_map_of_mem ((hp.lookup?_eq_some_iff hn).1 hlookup)
      have hfewer := SchemaIndex.length_filter_lt hmem hseen
      exact ⟨turns + 1, Nat.lt_of_le_of_lt hturns hfewer, .turn hnone hlookup hseen h⟩
  next hnone hother => exact ⟨0, Nat.zero_le _, .ended hnone hother⟩
termination_by index.unseen seen
decreasing_by exact SchemaIndex.unseen_lt (by assumption) (by assumption)

variable {order : List (String × Schema)}

/-- In whatever order aliases are named, the names are the drafts of the definitions that they
lead to. -/
theorem get?_withAliases_eq_some (hp : index.Proper)
    (hbare : ∀ n, n ∈ index.entries.map Prod.fst → index.Bare n)
    (hdrafts : (draftNames .empty [] index.own).outcome = .ok drafts)
    (horder : order.Perm index.entries) {n x : String} :
    (withAliases index drafts order).value.get? n = some x ↔
      ∃ as d s, index.Follows n as d ∧ (d, s) ∈ index.own ∧ drafts.get? d = some x := by
  have hvisited : n ∈ order.map Prod.fst ↔ n ∈ index.entries.map Prod.fst :=
    (horder.map Prod.fst).mem_iff
  by_cases hmem : n ∈ index.entries.map Prod.fst
  · obtain ⟨hsettled, hnamed⟩ := settled_withAliases settled_drafts order
    constructor
    · intro h
      obtain ⟨as, hr⟩ := hsettled.reached n x h
      exact ⟨as, (reaches_iff hp hdrafts (hbare n hmem)).1 hr⟩
    · rintro ⟨as, hf⟩
      exact hnamed n as x (hvisited.2 hmem) ((reaches_iff hp hdrafts (hbare n hmem)).2 hf)
  · rw [get?_withAliases_of_not_mem (mt hvisited.1 hmem)]
    have hown : n ∉ index.own.map Prod.fst := fun h =>
      hmem ((List.filter_sublist.map Prod.fst).subset h)
    rw [(get?_draftNames hdrafts n).1 hown]
    exact iff_of_false (fun h => nomatch h) fun ⟨as, d, s, hf, hd, _⟩ => hmem (hf.mem_entries hd)

/-- The search for the name of a definition takes as many turns as there are definitions at
most, whatever the table holds by then, and every way from a definition ends after as many
aliases at most. A name from which a way ends at a definition with a type of its own has the
draft of that definition, and one from which a way ends nowhere or in a cycle has no name. The
order in which aliases are named makes no difference. -/
theorem names_of_aliases (hp : index.Proper)
    (hbare : ∀ n, n ∈ index.entries.map Prod.fst → index.Bare n)
    (hdrafts : (draftNames .empty [] (proper index.entries).value).outcome = .ok drafts)
    (horder : order.Perm index.entries) :
    (∀ names n, n ∈ index.entries.map Prod.fst → ∃ turns, turns ≤ index.entries.length ∧
        Search index names [] n turns (aliasTarget index names [] n).value) ∧
      (∀ n, n ∈ index.entries.map Prod.fst → ∃ as e, index.Follows n as e ∧ as.Nodup ∧
        as.length ≤ index.entries.length ∧
        ((∃ s, (e, s) ∈ index.own) ∨ e ∉ index.entries.map Prod.fst ∨ e ∈ as)) ∧
      (∀ n as d s, index.Follows n as d → (d, s) ∈ index.own → ∃ x, drafts.get? d = some x ∧
        (withAliases index drafts order).value.get? n = some x) ∧
      (∀ n as e, index.Follows n as e → e ∉ index.entries.map Prod.fst ∨ e ∈ as →
        (withAliases index drafts order).value.get? n = none) ∧
      ∀ order', order'.Perm index.entries → ∀ n, (withAliases index drafts order').value.get? n =
        (withAliases index drafts order).value.get? n := by
  rw [value_proper] at hdrafts
  refine ⟨fun names n hn => ?_, fun n hn => SchemaIndex.exists_follows hp (hbare n hn),
    fun n as d s h hd => ?_, fun n as e h he => ?_, fun order' horder' n => ?_⟩
  · obtain ⟨turns, hturns, h⟩ := search_aliasTarget hp (hbare n hn) names []
    refine ⟨turns, ?_, h⟩
    calc turns ≤ _ := hturns
      _ ≤ (index.entries.map Prod.fst).length := List.length_filter_le _ _
      _ = index.entries.length := List.length_map _
  · obtain ⟨x, hx, -⟩ := (get?_draftNames hdrafts d).2 (List.mem_map_of_mem hd)
    exact ⟨x, hx, (get?_withAliases_eq_some hp hbare hdrafts horder).2 ⟨as, d, s, h, hd, hx⟩⟩
  · refine Option.eq_none_iff_forall_ne_some.2 fun x hx => ?_
    obtain ⟨as', d, s, h', hd, hx'⟩ := (get?_withAliases_eq_some hp hbare hdrafts horder).1 hx
    have hway := (reaches_iff hp hdrafts (hbare n (h'.mem_entries hd))).2 ⟨d, s, h', hd, hx'⟩
    exact h.not_own hp he h' hway.nodup hd
  · refine Option.ext fun x => ?_
    rw [get?_withAliases_eq_some hp hbare hdrafts horder', get?_withAliases_eq_some hp hbare
      hdrafts horder]

/-- A chain of two aliases, an alias of nothing, two aliases of each other, and an alias whose
name has a slash in it. -/
def kennel : SchemaIndex where
  base := Family.swagger2.schemaPrefix
  entries := [("Puppy", .reference "#/definitions/Dog" false),
    ("Dog", .reference "shared.json#/Animal" true),
    ("Animal", .object [("name", .primitive (some "string") none none false)] [] none false),
    ("Ghost", .reference "#/definitions/Nobody" false), ("Hen", .reference "Egg" false),
    ("Egg", .reference "Hen" false), ("Cat/Kitten", .reference "#/definitions/Puppy" false)]

theorem names_of_aliases_kennel :
    kennel.Proper ∧ (∀ n, n ∈ kennel.entries.map Prod.fst → kennel.Bare n) ∧
    (draftNames .empty [] (proper kennel.entries).value).outcome = .ok [("Animal", "Animal")] ∧
    kennel.entries.reverse.Perm kennel.entries ∧
    ∀ names, names = (withAliases kennel [("Animal", "Animal")] kennel.entries.reverse).value →
      names.get? "Puppy" = some "Animal" ∧ names.get? "Cat/Kitten" = some "Animal" ∧
      names.get? "Ghost" = none ∧ names.get? "Hen" = none ∧
      ∀ n, (withAliases kennel [("Animal", "Animal")] kennel.entries).value.get? n =
      names.get? n := by
  have hp : kennel.Proper := ⟨by decide, "#/definitions", rfl⟩
  have hbare : ∀ n, n ∈ kennel.entries.map Prod.fst → kennel.Bare n := by
    unfold SchemaIndex.Bare
    decide
  have hdrafts : (draftNames .empty [] (proper kennel.entries).value).outcome =
      .ok [("Animal", "Animal")] := Failure.eq_ok_of_toOption (by decide +kernel)
  have horder := List.reverse_perm kennel.entries
  obtain ⟨-, -, hnamed, hnone, hsame⟩ := names_of_aliases hp hbare hdrafts horder
  refine ⟨hp, hbare, hdrafts, horder, ?_⟩
  rintro names rfl
  obtain ⟨s, hanimal⟩ : ∃ s, ("Animal", s) ∈ kennel.own := ⟨_, List.mem_cons_self⟩
  have hdog : kennel.Follows (refName "#/definitions/Dog") ["Dog"]
    (refName "shared.json#/Animal") :=
    .past (List.mem_of_getElem? (i := 1) rfl) (.here _)
  have hpuppy : kennel.Follows (refName "#/definitions/Puppy") ["Puppy", "Dog"] "Animal" :=
    .past (List.mem_of_getElem? (i := 0) rfl) hdog
  have hkitten : kennel.Follows "Cat/Kitten" ["Cat/Kitten", "Puppy", "Dog"] "Animal" :=
    .past (List.mem_of_getElem? (i := 6) rfl) hpuppy
  have hghost : kennel.Follows "Ghost" ["Ghost"] (refName "#/definitions/Nobody") :=
    .past (List.mem_of_getElem? (i := 3) rfl) (.here _)
  have hhen : kennel.Follows "Hen" ["Hen", "Egg"] (refName "Hen") :=
    .past (List.mem_of_getElem? (i := 4) rfl) (.past (List.mem_of_getElem? (i := 5) rfl) (.here _))
  obtain ⟨x, hx, hnamedPuppy⟩ := hnamed _ _ _ s hpuppy hanimal
  obtain ⟨y, hy, hnamedKitten⟩ := hnamed _ _ _ s hkitten hanimal
  cases hx
  cases hy
  exact ⟨hnamedPuppy, hnamedKitten, hnone _ _ _ hghost (Or.inl (by decide)),
    hnone _ _ _ hhen (Or.inr (by decide)), hsame _ (List.Perm.refl _)⟩

end Definitions

end TypedClients
