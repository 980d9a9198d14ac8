import TypedClients.Proofs.Document.Branches
import TypedClients.Proofs.Migration.Documents
import TypedClients.Proofs.Schema.References

/-!
# Definitions found by an index and by a pointer

A reference to a definition can be looked up in the index of the document, or followed as a
pointer. The index compares the reference with the names of the definitions as they stand, and
with these names behind the text that full references begin with; the pointer takes its steps
apart and reads the last one as it is meant. The two agree as long as both come to one
definition, or to none.

* `resolve_schemaRef`: what a pointer to a definition comes to.
* `lookup?_schemaRef`: what the index has for it, unless a definition is called like the whole
  reference.
* `agrees_iff`: they agree exactly if the index comes to the definition that the last step of
  the reference means.
-/

namespace TypedClients

open Pointer (TripsAt decoded follow ofSteps step? unescape)

/-! ## Values that count as not given -/

namespace Value

variable {v : Value}

theorem get?_of_not_given (h : v.isGiven = false) (key : String) : v.get? key = none := by
  have hentries : v.entries = [] := by
    revert h
    induction v using inside_induction with
    | plain v hplain =>
      cases v with
      | map es =>
        intro h
        rw [isGiven, Bool.not_eq_false', List.isEmpty_iff] at h
        exact h
      | knot id w => exact absurd rfl (hplain id w)
      | _ => exact fun _ => rfl
    | inside id v ih => exact ih
  rw [get?, hentries]
  rfl

theorem items?_of_not_given (h : v.isGiven = false) {xs : List Value} (hxs : v.items? = some xs) :
    xs = [] := by
  revert h hxs
  induction v using inside_induction with
  | plain v hplain =>
    cases v with
    | list ys =>
      intro h hxs
      obtain rfl := Option.some.inj hxs
      rw [isGiven, Bool.not_eq_false', List.isEmpty_iff] at h
      exact h
    | knot id w => exact absurd rfl (hplain id w)
    | _ =>
      intro _ hxs
      cases hxs
  | inside id v ih => exact ih

/-- Entries without bytes as keys are named by the texts that they stand under. -/
theorem lookup_named {α : Type} {es : List (Value × α)} (h : ∀ e, e ∈ es → e.1.isBytes = false)
    (name : String) :
    (named es).lookup name = (es.find? fun e => e.1.isStr name).map Prod.snd := by
  rw [named, textKeyed_eq_self h]
  clear h
  induction es with
  | nil => rfl
  | cons e rest ih =>
    obtain ⟨k, a⟩ := e
    cases k with
    | str s =>
      have hkey : (str s).isStr name = (s == name) := rfl
      show List.lookup name ((s, a) :: List.filterMap _ rest) = _
      rw [List.lookup_cons, List.find?_cons, hkey, ih, BEq.comm]
      cases s == name with
      | true => rfl
      | false => rfl
    | _ => exact ih

end Value

/-! ## Pointers to definitions -/

/-- The steps to the definitions of a document. -/
def Family.steps : Family → List (List Char)
  | .swagger2 => ["definitions".toList]
  | .openapi3 => ["components".toList, "schemas".toList]

theorem Family.slash_not_mem_of_mem_steps {family : Family} {t : List Char} (h : t ∈ family.steps) :
    '/' ∉ t := by
  revert t
  cases family with
  | swagger2 => decide
  | openapi3 => decide

/-- The reference to a definition that is written with a last step. -/
def Family.schemaRef (family : Family) (step : List Char) : String :=
  family.schemaPrefix ++ String.ofList step

namespace Pointer

/-- A step that is no number in any writing names a field. -/
theorem step?_eq_get? {step : List Char} (h : (step.isEmpty || !step.all Text.isDigit) = true)
    (v : Value) : step? v step = .ok (v.get? (String.ofList step)) := by
  rw [step?]
  by_cases hmap : v.isMap = true
  · rw [if_pos hmap]
  · rw [if_neg hmap, Value.get?_eq_none (Bool.eq_false_iff.2 hmap)]
    cases v.items? with
    | none => rfl
    | some xs =>
      dsimp only
      rw [if_pos h]

theorem schemaRef_eq_ofSteps (family : Family) (step : List Char) :
    family.schemaRef step = ofSteps (family.steps ++ [step]) := by
  rw [← String.toList_inj, ofSteps, String.toList_ofList, Family.schemaRef, String.toList_append,
    String.toList_ofList]
  cases family with
  | swagger2 => rfl
  | openapi3 => rfl

/-- The steps to a definition come by the value that holds the definitions. -/
theorem follow_definitions (root : Value) (family : Family) (step : List Char) :
    follow root ((family.steps ++ [step]).map unescape) =
      match Document.definitionsOf root family with
      | none => .ok none
      | some held => step? held (decoded step) := by
  have hlast : ∀ held, follow held [unescape step] = step? held (decoded step) := by
    intro held
    rw [follow, unescape_eq_decoded]
    cases step? held (decoded step) with
    | error f => rfl
    | ok found =>
      cases found with
      | none => rfl
      | some v => rfl
  cases family with
  | swagger2 =>
    show follow root ["definitions".toList, unescape step] = _
    rw [follow, step?_eq_get? (by decide), String.ofList_toList, Document.definitionsOf]
    cases root.get? "definitions" with
    | none => rfl
    | some held => exact hlast held
  | openapi3 =>
    show follow root ["components".toList, "schemas".toList, unescape step] = _
    rw [follow, step?_eq_get? (by decide), String.ofList_toList, Document.definitionsOf]
    cases root.get? "components" with
    | none => rfl
    | some components =>
      show follow components ["schemas".toList, unescape step] = _
      rw [follow, step?_eq_get? (by decide), String.ofList_toList, Option.bind_some]
      cases components.get? "schemas" with
      | none => rfl
      | some held => exact hlast held

/-- A pointer to a definition takes its last step from the value that holds the definitions. -/
theorem resolve_schemaSteps (root : Value) (family : Family) {step : List Char}
    (hslash : '/' ∉ step) :
    resolve root (family.schemaRef step) =
      (match Document.definitionsOf root family with
        | none => .ok none
        | some held => step? held (decoded step)) >>= fun
        | some v => .ok v
        | none => .error (.refused (.unresolvedReference (family.schemaRef step))) := by
  have hslashes : ∀ t, t ∈ family.steps ++ [step] → '/' ∉ t := by
    intro t ht
    rcases List.mem_append.1 ht with ht | ht
    · exact Family.slash_not_mem_of_mem_steps ht
    · obtain rfl := List.mem_singleton.1 ht
      exact hslash
  have hsteps : steps? (family.schemaRef step) = some ((family.steps ++ [step]).map unescape) := by
    rw [schemaRef_eq_ofSteps]
    exact steps?_ofSteps (List.append_ne_nil_of_right_ne_nil _ (List.cons_ne_nil _ _)) hslashes
  rw [resolve, hsteps]
  dsimp only
  rw [follow_definitions]
  rfl

end Pointer

namespace Document

variable {root : Value} {d : Document} {step : List Char}

/-- No key on the way to the definitions of a document, and none of theirs, is bytes. -/
structure PlainKeys (root : Value) (family : Family) : Prop where
  top : ∀ e, e ∈ root.entries → e.1.isBytes = false
  definitions : ∀ held, definitionsOf root family = some held → ∀ e, e ∈ held.entries →
    e.1.isBytes = false

/-- A last step that trips, over an empty list where the definitions should be. -/
def Mislays (d : Document) (step : List Char) : Prop :=
  ∃ held, definitionsOf d.root d.family = some held ∧ TripsAt held (decoded step)

/-- What is held where the definitions are: nothing, or a map of all of them. -/
theorem held_cases {cause : Cause} {held : Value} {es : List (Value × Value)}
    (h : table cause (some held) = .ok es) :
    held.isGiven = false ∧ es = [] ∨ held.isMap = true ∧ es = held.entries := by
  rw [table, Option.filter_some] at h
  by_cases hgiven : held.isGiven = true
  · rw [if_pos hgiven] at h
    dsimp only at h
    unfold Value.entries? at h
    by_cases hmap : held.isMap = true
    · rw [if_pos hmap] at h
      exact Or.inr ⟨hmap, (Except.ok.inj h).symm⟩
    · rw [if_neg hmap] at h
      cases h
  · rw [if_neg hgiven] at h
    exact Or.inl ⟨Bool.eq_false_iff.2 hgiven, (Except.ok.inj h).symm⟩

/-- The definitions of a document are what the pointer finds them among. -/
theorem definitions_of_ofValue (h : ofValue root = .ok d) (hkeys : PlainKeys root d.family) :
    (definitionsOf d.root d.family = none ∧ d.definitions = []) ∨
      ∃ held, definitionsOf d.root d.family = some held ∧
        (held.isGiven = false ∧ d.definitions = [] ∨
          held.isMap = true ∧ ∀ name, d.definitions.lookup name = held.get? name) := by
  obtain ⟨hmap, family, paths, definitions, baseUrl, -, -, htable, -, -, -, -, rfl⟩ :=
    ofValue_eq_ok.1 h
  have hroot : definitionsOf (.map (Value.textKeyed root.entries)) family =
      definitionsOf root family := by
    rw [Value.textKeyed_eq_self hkeys.top]
    cases family with
    | swagger2 => rfl
    | openapi3 => rfl
  show (definitionsOf (.map (Value.textKeyed root.entries)) family = none ∧
    Value.named definitions = []) ∨ _
  rw [hroot]
  cases hheld : definitionsOf root family with
  | none =>
    rw [hheld] at htable
    cases htable
    exact Or.inl ⟨rfl, rfl⟩
  | some held =>
    rw [hheld] at htable
    refine Or.inr ⟨held, rfl, ?_⟩
    rcases held_cases htable with ⟨hgiven, rfl⟩ | ⟨hheldMap, rfl⟩
    · exact Or.inl ⟨hgiven, rfl⟩
    · exact Or.inr ⟨hheldMap, Value.lookup_named (hkeys.definitions held hheld)⟩

/-- A pointer to a definition comes to the one that its last step means, unless this step
trips. -/
theorem resolve_schemaRef (h : ofValue root = .ok d) (hkeys : PlainKeys root d.family)
    (hslash : '/' ∉ step) (hnot : ¬Mislays d step) :
    Pointer.resolve d.root (d.family.schemaRef step) =
      match d.definitions.lookup (String.ofList (decoded step)) with
      | none => .error (.refused (.unresolvedReference (d.family.schemaRef step)))
      | some v => .ok v := by
  rw [Pointer.resolve_schemaSteps d.root d.family hslash]
  rcases definitions_of_ofValue h hkeys with ⟨hnone, hempty⟩ | ⟨held, hheld, hcases⟩
  · rw [hnone, hempty]
    rfl
  · rw [hheld]
    have hstep : step? held (decoded step) =
        .ok (d.definitions.lookup (String.ofList (decoded step))) := by
      rcases hcases with ⟨hgiven, hempty⟩ | ⟨hmap, hlookup⟩
      · obtain ⟨found, hfound⟩ := Pointer.exists_step? fun htrips => hnot ⟨held, hheld, htrips⟩
        cases found with
        | none =>
          rw [hempty]
          exact hfound
        | some v =>
          -- nothing can be found in what is not given
          rcases Pointer.step?_eq_some hfound with hget | ⟨xs, n, hitems, -, hget⟩
          · rw [Value.get?_of_not_given hgiven] at hget
            cases hget
          · rw [Value.items?_of_not_given hgiven hitems] at hget
            cases hget
      · rw [step?, if_pos hmap, hlookup]
    dsimp only
    rw [hstep]
    cases d.definitions.lookup (String.ofList (decoded step)) with
    | none => rfl
    | some v => rfl

/-- Where the last step trips there are no definitions, and the pointer is not refused but
breaks off. -/
theorem resolve_of_mislays (h : ofValue root = .ok d) (hkeys : PlainKeys root d.family)
    (hslash : '/' ∉ step) (hmislays : d.Mislays step) :
    Pointer.resolve d.root (d.family.schemaRef step) = .error (.mishap .wrongValue) ∧
      d.definitions = [] := by
  obtain ⟨held, hheld, htrips⟩ := hmislays
  refine ⟨?_, ?_⟩
  · rw [Pointer.resolve_schemaSteps d.root d.family hslash, hheld]
    dsimp only
    rw [Pointer.step?_of_tripsAt htrips]
    rfl
  · rcases definitions_of_ofValue h hkeys with ⟨-, hempty⟩ |
      ⟨held', hheld', ⟨-, hempty⟩ | ⟨hmap, -⟩⟩
    · exact hempty
    · exact hempty
    · obtain rfl := Option.some.inj (hheld.symm.trans hheld')
      rw [htrips.map] at hmap
      cases hmap

end Document

/-! ## The index -/

namespace SchemaIndex

variable {root : Value} {d : Document} {index : SchemaIndex} {step : List Char}

theorem value_resolve (ref : String) : (index.resolve ref).value = index.lookup? ref := by
  unfold resolve
  cases index.lookup? ref with
  | none => rfl
  | some s => rfl

/-- Each definition is read into the index under its name. -/
theorem lookup_entriesOf {definitions : List (String × Value)} {entries : List (String × Schema)}
    (h : entriesOf definitions = .ok entries) (name : String) :
    (definitions.lookup name).map Schema.ofValue = (entries.lookup name).map .ok := by
  induction definitions generalizing entries with
  | nil =>
    cases h
    rfl
  | cons e rest ih =>
    obtain ⟨n, v⟩ := e
    rw [entriesOf] at h
    obtain ⟨s, hs, h⟩ := bind_eq_ok.1 h
    obtain ⟨others, hothers, h⟩ := bind_eq_ok.1 h
    cases h
    rw [List.lookup_cons, List.lookup_cons]
    cases name == n with
    | true => exact congrArg some hs
    | false => exact ih hothers

theorem entriesOf_of_ofDocument (h : ofDocument d = .ok index) :
    entriesOf d.definitions = .ok index.entries := by
  rw [ofDocument] at h
  obtain ⟨entries, hentries, h⟩ := bind_eq_ok.1 h
  cases h
  exact hentries

theorem mem_of_lookup {α : Type} {es : List (String × α)} {name : String} {a : α}
    (h : es.lookup name = some a) : (name, a) ∈ es := by
  induction es with
  | nil => cases h
  | cons e rest ih =>
    obtain ⟨n, b⟩ := e
    rw [List.lookup_cons] at h
    cases hname : name == n with
    | true =>
      rw [hname] at h
      rw [beq_iff_eq.1 hname, Option.some.inj h]
      exact List.mem_cons_self
    | false =>
      rw [hname] at h
      exact List.mem_cons_of_mem _ (ih h)

theorem lookup_eq_none {α : Type} {es : List (String × α)} {name : String} :
    es.lookup name = none ↔ name ∉ es.map Prod.fst := by
  rw [List.lookup_eq_none_iff, List.mem_map, not_exists]
  refine forall_congr' fun e => ?_
  rw [bne_iff_ne, not_and, ne_comm]

/-- What the index has for a reference to a definition is the schema of the definition that is
called like its last step as it stands, unless one is called like the whole reference. -/
theorem lookup?_schemaRef (hindex : ofDocument d = .ok index)
    (hnodup : (d.definitions.map Prod.fst).Nodup)
    (hwhole : d.family.schemaRef step ∉ d.definitions.map Prod.fst) :
    index.lookup? (d.family.schemaRef step) = index.entries.lookup (String.ofList step) := by
  have hproper := proper_ofDocument hindex hnodup
  rw [ofDocument] at hindex
  obtain ⟨entries, hentries, h⟩ := bind_eq_ok.1 hindex
  cases h
  -- the name in front of which full references begin is the step as it stands
  have hnames : ∀ e, e ∈ entries →
      (⟨d.family.schemaPrefix, entries⟩ : SchemaIndex).names e.1 (d.family.schemaRef step) =
        (String.ofList step == e.1) := by
    intro e he
    have hne : e.1 ≠ d.family.schemaRef step := by
      intro heq
      rw [← heq, ← map_fst_entriesOf hentries] at hwhole
      exact hwhole (List.mem_map_of_mem he)
    rw [names, beq_false_of_ne hne, Bool.false_or, Bool.eq_iff_iff, beq_iff_eq, beq_iff_eq]
    constructor
    · intro heq
      rw [Family.schemaRef, ← String.toList_inj, String.toList_append, String.toList_append] at heq
      exact (String.toList_inj.1 (List.append_cancel_left heq)).symm
    · intro heq
      rw [← heq]
      rfl
  cases hlookup : entries.lookup (String.ofList step) with
  | none =>
    rw [lookup?, List.find?_eq_none.2, Option.map_none]
    intro e he
    have hmem := List.mem_reverse.1 he
    have hne := List.lookup_eq_none_iff.1 hlookup e hmem
    rw [bne_iff_ne] at hne
    rw [hnames e hmem, beq_iff_eq]
    exact hne
  | some s =>
    have hmem := mem_of_lookup hlookup
    rw [lookup?_eq]
    cases hfound : (⟨d.family.schemaPrefix, entries⟩ : SchemaIndex).definition?
        (d.family.schemaRef step) with
    | none =>
      rw [definition?, List.find?_eq_none] at hfound
      refine absurd ?_ (hfound _ (List.mem_reverse.2 hmem))
      rw [hnames _ hmem, beq_self_eq_true]
    | some e =>
      have he := mem_of_definition? hfound
      have hname := List.find?_some hfound
      rw [hnames e he, beq_iff_eq] at hname
      obtain ⟨n, s'⟩ := e
      obtain rfl : String.ofList step = n := hname
      exact congrArg some (hproper.eq_of_mem he hmem)

/-! ## Both -/

/-- The index has under a reference the schema of what the pointer comes to, and none exactly
if the pointer is refused. -/
def Agrees (d : Document) (index : SchemaIndex) (ref : String) : Prop :=
  (∀ v, Pointer.resolve d.root ref = .ok v →
    ∃ s, (index.resolve ref).value = some s ∧ Schema.ofValue v = .ok s) ∧
  ((index.resolve ref).value = none ↔
    Pointer.resolve d.root ref = .error (.refused (.unresolvedReference ref)))

/-- Index and pointer agree on a reference to a definition exactly if the step does not trip
and what the index has is the schema of the definition that the last step means. For a
reference that is not itself called like a definition, the index has the schema of the
definition called like the last step as it stands: a step that means what it says is looked up
as it is followed. -/
theorem agrees_iff (h : Document.ofValue root = .ok d) (hkeys : Document.PlainKeys root d.family)
    (hnodup : (d.definitions.map Prod.fst).Nodup) (hindex : ofDocument d = .ok index)
    (hslash : '/' ∉ step) :
    (Agrees d index (d.family.schemaRef step) ↔ ¬d.Mislays step ∧
      index.lookup? (d.family.schemaRef step) = index.entries.lookup
      (String.ofList (decoded step))) ∧
    (d.family.schemaRef step ∉ d.definitions.map Prod.fst →
      index.lookup? (d.family.schemaRef step) = index.entries.lookup (String.ofList step)) := by
  refine ⟨?_, lookup?_schemaRef hindex hnodup⟩
  have hread := fun name => lookup_entriesOf (entriesOf_of_ofDocument hindex) name
  rw [Agrees, value_resolve]
  by_cases hmislays : d.Mislays step
  · -- the index has nothing, and the pointer is not refused
    obtain ⟨hresolve, hempty⟩ := Document.resolve_of_mislays h hkeys hslash hmislays
    refine iff_of_false (fun hagrees => ?_) fun hboth => hboth.1 hmislays
    have hnone : index.lookup? (d.family.schemaRef step) = none := by
      have hentries := entriesOf_of_ofDocument hindex
      rw [hempty] at hentries
      rw [lookup?, ← Except.ok.inj hentries]
      rfl
    have herror := hagrees.2.1 hnone
    rw [hresolve] at herror
    cases herror
  · rw [Document.resolve_schemaRef h hkeys hslash hmislays]
    have hmeant := hread (String.ofList (decoded step))
    cases hv : d.definitions.lookup (String.ofList (decoded step)) with
    | none =>
      rw [hv] at hmeant
      have hnone := Option.map_eq_none_iff.1 hmeant.symm
      rw [hnone]
      refine ⟨fun hagrees => ⟨hmislays, hagrees.2.2 rfl⟩,
        fun hboth => ⟨?_, iff_of_true hboth.2 rfl⟩⟩
      intro v hv
      cases hv
    | some v =>
      rw [hv] at hmeant
      obtain ⟨s, hs, hread⟩ := Option.map_eq_some_iff.1 hmeant.symm
      rw [hs]
      constructor
      · intro hagrees
        obtain ⟨s', hs', hread'⟩ := hagrees.1 v rfl
        rw [hs', Except.ok.inj (hread'.symm.trans hread.symm)]
        exact ⟨hmislays, rfl⟩
      · intro hboth
        refine ⟨fun w hw => ⟨s, hboth.2, ?_⟩, ?_⟩
        · obtain rfl := Except.ok.inj hw
          exact hread.symm
        · rw [hboth.2]
          refine iff_of_false (Option.some_ne_none s) fun herror => ?_
          cases herror

/-- A document with a definition whose name is written in another way in references, and one
whose name is not. -/
def slashed : Value :=
  .map [
    (.str "swagger", .str "2.0"),
    (.str "paths", .map []),
    (.str "definitions", .map [
      (.str "a/b", .map [(.str "type", .str "string")]),
      (.str "Pet", .map [(.str "type", .str "boolean")])])]

theorem plainKeys_slashed : Document.PlainKeys slashed .swagger2 := by
  refine ⟨by decide, fun held hheld => ?_⟩
  obtain rfl := Option.some.inj hheld
  decide

theorem agrees_iff_slashed :
    ∃ d index, Document.ofValue slashed = .ok d ∧ ofDocument d = .ok index ∧
      Agrees d index "#/definitions/Pet" ∧ ¬Agrees d index "#/definitions/a~1b" := by
  have hrun : ((Document.ofValue slashed).toOption.any fun d => decide (d.family = .swagger2) &&
      (decide (d.definitions.map Prod.fst = ["a/b", "Pet"]) && (ofDocument d).toOption.isSome)) =
        true := by decide +kernel
  obtain ⟨d, hd, hrun⟩ := (Option.any_eq_true _ _).1 hrun
  obtain ⟨hfamily, hrun⟩ := (Bool.and_eq_true _ _).mp hrun
  obtain ⟨hdefined, hsome⟩ := (Bool.and_eq_true _ _).mp hrun
  obtain ⟨index, hindex⟩ := Failure.exists_eq_ok hsome
  have hfamily := of_decide_eq_true hfamily
  have hdefined := of_decide_eq_true hdefined
  have hdocument := Failure.eq_ok_of_toOption hd
  have hkeys : Document.PlainKeys slashed d.family := by
    rw [hfamily]
    exact plainKeys_slashed
  have hnodup : (d.definitions.map Prod.fst).Nodup := by
    rw [hdefined]
    decide
  have hpet := @agrees_iff slashed d index "Pet".toList hdocument hkeys hnodup hindex (by decide)
  have hab := @agrees_iff slashed d index "a~1b".toList hdocument hkeys hnodup hindex (by decide)
  have hentries := map_fst_entriesOf (entriesOf_of_ofDocument hindex)
  rw [hfamily, hdefined] at hpet hab
  rw [hdefined] at hentries
  refine ⟨d, index, hdocument, hindex, hpet.1.2 ⟨?_, hpet.2 (by decide)⟩, fun hagrees => ?_⟩
  · intro hmislays
    rw [(Document.resolve_of_mislays hdocument hkeys (by decide) hmislays).2] at hdefined
    cases hdefined
  · -- the definition called `a/b` would have to be called `a~1b`
    have hmeant := (hab.1.1 hagrees).2
    rw [hab.2 (by decide)] at hmeant
    have hmissing : index.entries.lookup (String.ofList "a~1b".toList) = none := by
      rw [lookup_eq_none, hentries]
      decide
    rw [hmissing] at hmeant
    have hfound := lookup_eq_none.1 hmeant.symm
    rw [hentries] at hfound
    exact hfound (by decide +kernel)

/-- A definition named `a/b` is referred to as `a~1b`. The pointer finds it, and the index
does not. -/
theorem not_agrees_slashed :
    ∃ d index v, Document.ofValue slashed = .ok d ∧ ofDocument d = .ok index ∧
      Pointer.resolve d.root "#/definitions/a~1b" = .ok v ∧
      (index.resolve "#/definitions/a~1b").value = none ∧ ¬Agrees d index "#/definitions/a~1b" := by
  have hrun : ((Document.ofValue slashed).toOption.any fun d =>
      (Pointer.resolve d.root "#/definitions/a~1b").toOption.isSome &&
        (ofDocument d).toOption.any fun index =>
          (index.resolve "#/definitions/a~1b").value.isNone) = true := by decide +kernel
  obtain ⟨d, hd, hrun⟩ := (Option.any_eq_true _ _).1 hrun
  obtain ⟨hresolved, hrun⟩ := (Bool.and_eq_true _ _).mp hrun
  obtain ⟨v, hv⟩ := Option.isSome_iff_exists.1 hresolved
  obtain ⟨index, hindex, hnone⟩ := (Option.any_eq_true _ _).1 hrun
  have hv := Failure.eq_ok_of_toOption hv
  have hnone := Option.isNone_iff_eq_none.1 hnone
  refine ⟨d, index, v, Failure.eq_ok_of_toOption hd, Failure.eq_ok_of_toOption hindex, hv,
    hnone, ?_⟩
  intro hagrees
  have herror := hagrees.2.1 hnone
  rw [hv] at herror
  cases herror

end SchemaIndex

end TypedClients
