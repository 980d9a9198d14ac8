import TypedClients.Proofs.Migration.References
import TypedClients.Proofs.Migration.Operations
import TypedClients.Proofs.Types.FinalNames

/-!
# The types of a migrated document

Definitions and operations whose references are moved get the types that they got before,
under the same names and tags.

* `outcome_addDefinitions_moved`: the types of the definitions.
* `outcome_addEndpoints_moved`: the types of the operations.
-/

namespace TypedClients

open Migration (Movable Plain)
open Schema (refName)

variable {index : SchemaIndex} {names : Ordered String}

/-! ## Definitions -/

theorem SchemaIndex.entriesOf_moved (defs : List (String × Value)) :
    entriesOf (defs.map fun e => (e.1, e.2.moved)) =
      List.map (fun e => (e.1, e.2.moved)) <$> entriesOf defs := by
  induction defs with
  | nil => rfl
  | cons e rest ih =>
    rw [List.map_cons, entriesOf, entriesOf, Schema.ofValue_moved, ih, bind_map_left, map_bind]
    refine congrArg _ (funext fun s => ?_)
    rw [bind_map_left, map_bind]
    rfl

/-- The definitions of a migrated document are those from before, moved. -/
theorem SchemaIndex.ofDocument_migrated {d : Document} {root : Value}
    (h : ofDocument d = .ok index) :
    ofDocument (d.migrated root) = .ok index.moved := by
  rw [ofDocument] at h
  obtain ⟨entries, hentries, h⟩ := bind_eq_ok.1 h
  cases h
  refine bind_eq_ok.2 ⟨entries.map fun e => (e.1, e.2.moved), ?_, rfl⟩
  have hmoved := entriesOf_moved d.definitions
  rw [hentries] at hmoved
  exact hmoved

theorem SchemaIndex.own_moved : index.moved.own = index.own.map fun e => (e.1, e.2.moved) := by
  have hown : ((fun e : String × Schema => !Definitions.isAlias e.2) ∘ fun e : String × Schema =>
      (e.1, e.2.moved)) = fun e => !Definitions.isAlias e.2 := by
    funext e
    exact congrArg (!·) (Schema.isAlias_moved e.2)
  rw [own, moved, List.filter_map, hown, own]

namespace Definitions

/-- The drafts of the names are those from before. -/
theorem draftNames_moved (draft : TypeTable) (names : Ordered String)
    (defs : List (String × Schema)) :
    draftNames draft names (defs.map fun e => (e.1, e.2.moved)) = draftNames draft names defs := by
  induction defs generalizing draft names with
  | nil => rfl
  | cons e rest ih =>
    rw [List.map_cons, draftNames, draftNames, Schema.rendered_moved]
    refine congrArg _ (funext fun body => congrArg _ (funext fun r => ?_))
    exact ih r.2 _

theorem registerAll_moved (t : TypeTable) (defs : List (String × Schema)) :
    registerAll t (defs.map fun e => (e.1, e.2.moved)) = registerAll t defs := by
  induction defs generalizing t with
  | nil => rfl
  | cons e rest ih =>
    rw [List.map_cons, registerAll, registerAll, Schema.rendered_moved]
    refine congrArg _ (funext fun body => ?_)
    dsimp only
    exact congrArg _ (funext fun r => ih _)

/-- Aliases lead to the names that they led to before. -/
theorem value_aliasTarget_moved (h : index.Moves) (names : Ordered String) (seen : List String)
    (current : String) (hcurrent : Migration.Plain current) :
    (aliasTarget index.moved names seen current).value =
      (aliasTarget index names seen current).value := by
  rw [value_aliasTarget, value_aliasTarget index, SchemaIndex.lookup?_moved_of_plain h hcurrent]
  cases names.get? current with
  | some name => rfl
  | none =>
    cases hlookup : index.lookup? current with
    | none => rfl
    | some s =>
      cases s with
      | reference ref n =>
        rw [Option.map_some, Schema.moved]
        dsimp only
        rw [Schema.refName_moved]
        refine ite_congr rfl (fun _ => rfl) fun hseen => ?_
        exact value_aliasTarget_moved h names (current :: seen) _ (Schema.plain_refName ref)
      | object _ _ additional _ => cases additional <;> rfl
      | dictionary _ additional _ => cases additional <;> rfl
      | _ => rfl
termination_by index.unseen seen
decreasing_by exact SchemaIndex.unseen_lt (by assumption) (by assumption)

/-- The names of the aliases are those from before. -/
theorem value_withAliases_moved (h : index.Moves) (names : Ordered String)
    {entries : List (String × Schema)} (hentries : ∀ e, e ∈ entries → Migration.Plain e.1) :
    (withAliases index.moved names (entries.map fun e => (e.1, e.2.moved))).value =
      (withAliases index names entries).value := by
  induction entries generalizing names with
  | nil => rfl
  | cons e rest ih =>
    have hname := hentries e List.mem_cons_self
    have hstep : withAlias index.moved names e.1 = withAlias index names e.1 := by
      rw [withAlias, value_aliasTarget_moved h names [] e.1 hname, withAlias]
    rw [List.map_cons, value_withAliases_cons, value_withAliases_cons e.1 e.2, hstep]
    exact ih _ fun e he => hentries e (List.mem_cons_of_mem _ he)

/-- The definitions get the types that they got before. -/
theorem outcome_addDefinitions_moved (h : index.Moves) {t : TypeTable} {tags : List String}
    (ht : (TypeTable.empty.addDefinitions index).outcome = .ok (t, tags)) :
    (TypeTable.empty.addDefinitions index.moved).outcome = .ok (t, tags) := by
  obtain ⟨drafts, hdrafts, hr, htags⟩ := outcome_addDefinitions.1 ht
  have hnames := value_withAliases_moved h drafts h.plain
  refine outcome_addDefinitions.2 ⟨drafts, ?_, ?_, ?_⟩
  · rw [SchemaIndex.own_moved, draftNames_moved, hdrafts]
  · rw [SchemaIndex.own_moved, registerAll_moved, SchemaIndex.moved]
    dsimp only
    rw [← hr, ← hnames]
    rfl
  · rw [SchemaIndex.own_moved, List.map_map, ← htags]
    rfl

end Definitions

/-! ## Operations -/

/-- The schemas of what an operation is sent and answers. -/
def Operation.schemas (o : Operation) : List Schema :=
  o.requestBody.toList ++ o.responses.map Prod.snd

namespace Endpoints

variable {style : NameStyle}

theorem find?_map_snd {α β : Type} (f : α → β) (es : List (String × α)) (key : String) :
    ((es.map fun e => (e.1, f e.2)).find? fun e => decide (e.1 = key)).map Prod.snd =
      ((es.find? fun e => decide (e.1 = key)).map Prod.snd).map f := by
  rw [List.find?_map, Option.map_map, Option.map_map]
  rfl

theorem successSchema?_moved (o : Operation) :
    successSchema? o.moved = (successSchema? o).map Schema.moved := by
  rw [successSchema?, successSchema?, List.map_findSome?]
  exact congrArg (List.findSome? · _)
    (funext fun status => find?_map_snd Schema.moved o.responses status)

theorem mem_schemas_of_successSchema? {o : Operation} {s : Schema} (h : successSchema? o = some s) :
    s ∈ o.schemas := by
  obtain ⟨status, -, hs⟩ := List.exists_of_findSome?_eq_some h
  obtain ⟨e, he, rfl⟩ := Option.map_eq_some_iff.1 hs
  exact List.mem_append_right _ (List.mem_map_of_mem (List.mem_of_find?_eq_some he))

theorem outcome_renderOperation_moved (h : index.Moves) (names : Ordered String) {s : Schema}
    (hs : ∀ ref, ref ∈ s.references → Movable ref) :
    (s.moved.renderOperation index.moved names).outcome = (s.renderOperation index names).outcome :=
  Schema.outcome_renderFollowing_moved h [] (fun _ hr => absurd hr List.not_mem_nil) s hs

theorem outcome_addRequest_moved (h : index.Moves) (t : TypeTable) {o : Operation}
    (ho : ∀ s, s ∈ o.schemas → ∀ ref, ref ∈ s.references → Movable ref) :
    (addRequest t index.moved style o.moved).outcome = (addRequest t index style o).outcome := by
  rw [addRequest, addRequest, Operation.moved]
  cases hbody : o.requestBody with
  | none => rfl
  | some s =>
    have hmem : s ∈ o.schemas := by
      rw [Operation.schemas, hbody]
      exact List.mem_cons_self
    exact Checked.outcome_bind_congr (outcome_renderOperation_moved h _ (ho s hmem)) fun _ => rfl

theorem outcome_addResponse_moved (h : index.Moves) (t : TypeTable) {o : Operation}
    (ho : ∀ s, s ∈ o.schemas → ∀ ref, ref ∈ s.references → Movable ref) :
    (addResponse t index.moved style o.moved).outcome = (addResponse t index style o).outcome := by
  have hbody : (responseBody o.moved index.moved t.referenceNames).outcome =
      (responseBody o index t.referenceNames).outcome := by
    rw [responseBody, responseBody, successSchema?_moved]
    cases hs : successSchema? o with
    | none => rfl
    | some s =>
      have hmem := mem_schemas_of_successSchema? hs
      exact Checked.outcome_bind_congr (outcome_renderOperation_moved h _ (ho s hmem)) fun _ => rfl
  exact Checked.outcome_bind_congr hbody fun _ => rfl

/-- The operations get the types that they got before. -/
theorem outcome_addEndpoints_moved (h : index.Moves) (t : TypeTable) {os : List Operation}
    (hos : ∀ o, o ∈ os → ∀ s, s ∈ o.schemas → ∀ ref, ref ∈ s.references → Movable ref) :
    (t.addEndpoints index.moved style (os.map Operation.moved)).outcome =
      (t.addEndpoints index style os).outcome := by
  induction os generalizing t with
  | nil => rfl
  | cons o rest ih =>
    have ho := hos o List.mem_cons_self
    rw [List.map_cons, TypeTable.addEndpoints, TypeTable.addEndpoints]
    refine Checked.outcome_bind_congr (outcome_addRequest_moved h t ho) fun t => ?_
    refine Checked.outcome_bind_congr (outcome_addResponse_moved h t ho) fun t => ?_
    exact ih t fun o ho => hos o (List.mem_cons_of_mem _ ho)

end Endpoints

end TypedClients
