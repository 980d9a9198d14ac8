import TypedClients.Proofs.Migration.Parameters

/-!
# The operations of a migrated document

The operations of a migrated document are those of the document it was made from, with the
references in their schemas moved, provided that parameters and responses are written where
they belong and a body is described by an object (`InlineOperation`).

* `outcome_operation`: one operation is read as before.
* `outcome_operations`: so are all of them.
-/

namespace TypedClients

open Value (str list map)

/-- An operation with the references of its schemas moved. -/
def Operation.moved (o : Operation) : Operation :=
  { o with
    pathParams := o.pathParams.map Parameter.moved
    queryParams := o.queryParams.map Parameter.moved
    headerParams := o.headerParams.map Parameter.moved
    requestBody := o.requestBody.map Schema.moved
    responses := o.responses.map fun e => (e.1, e.2.moved) }

theorem Ordered.put_map {α β : Type} (f : α → β) (t : Ordered α) (name : String) (a : α) :
    Ordered.put (t.map fun e => (e.1, f e.2)) name (f a) =
      (t.put name a).map fun e => (e.1, f e.2) := by
  induction t with
  | nil => rfl
  | cons e rest ih =>
    obtain ⟨n, b⟩ := e
    rw [List.map_cons, put, put]
    split
    · rfl
    · rw [List.map_cons, ih]

namespace Migration

open Extraction (collect collectItems contentSchema dereference isIdentifiable isIn isUsable merge
  operationsOfMethods operationsOfPaths parameters responseSchema responsesFrom schemaUnder)

variable {d : Document} {root : Value}

/-! ## What can be migrated -/

/-- An operation whose parameters and responses are not kept elsewhere, and whose body is
described by an object. `shared` holds the parameters of its path. -/
structure InlineOperation (shared : List Value) (op : Value) : Prop where
  parameters : ∀ p, p ∈ ((op.get? "parameters").bind Value.items?).getD [] → p.reference? = none
  responses : ∀ e, e ∈ ((op.get? "responses").map Value.entries).getD [] → e.2.reference? = none
  body : ∀ b, b ∈ (merged shared (usable (op.get? "parameters"))).find? (isIn "body") →
    (schemaUnder "schema" b).isSome

instance (shared : List Value) (op : Value) : Decidable (InlineOperation shared op) :=
  decidable_of_iff (_ ∧ _ ∧ _) ⟨fun h => ⟨h.1, h.2.1, h.2.2⟩, fun h => ⟨h.1, h.2, h.3⟩⟩

/-- A path item whose parameters are not kept elsewhere, with such operations. -/
structure InlineItem (item : Value) : Prop where
  parameters : ∀ p, p ∈ ((item.get? "parameters").bind Value.items?).getD [] → p.reference? = none
  operations : ∀ m, m ∈ Method.all → ∀ op, op ∈ (item.get? m.word).filter Value.isMap →
    InlineOperation (usable (item.get? "parameters")) op

instance (item : Value) : Decidable (InlineItem item) :=
  decidable_of_iff (_ ∧ _) ⟨fun h => ⟨h.1, h.2⟩, fun h => ⟨h.1, h.2⟩⟩

/-! ## Parameters -/

theorem dereference_of_inline {v : Value} (h : v.reference? = none) : dereference d v = pure v := by
  rw [dereference, h]

theorem outcome_collectItems {vs : List Value} (h : ∀ v, v ∈ vs → v.reference? = none) :
    (collectItems d vs).outcome = .ok (vs.filter isUsable) := by
  induction vs with
  | nil => rfl
  | cons v rest ih =>
    have hrest := ih fun w hw => h w (List.mem_cons_of_mem _ hw)
    rw [collectItems, dereference_of_inline (h v List.mem_cons_self), pure_bind]
    cases husable : isUsable v with
    | true =>
      rw [if_pos rfl, List.filter_cons_of_pos husable]
      exact Checked.outcome_bind_eq_ok.2 ⟨_, hrest, rfl⟩
    | false =>
      rw [if_neg Bool.false_ne_true,
        List.filter_cons_of_neg (by rw [husable]; exact Bool.false_ne_true)]
      exact Checked.outcome_bind_eq_ok.2 ⟨(), rfl, hrest⟩

/-- Parameters that are not kept elsewhere are the usable ones of their list. -/
theorem outcome_collect {ps : Option Value}
    (h : ∀ p, p ∈ (ps.bind Value.items?).getD [] → p.reference? = none) :
    (collect d ps).outcome = .ok (usable ps) := by
  rw [collect, usable]
  cases hps : ps.bind Value.items? with
  | none => rfl
  | some vs =>
    rw [hps] at h
    exact outcome_collectItems h

theorem usable_of_mem {ps : Option Value} {p : Value} (h : p ∈ usable ps) :
    p ∈ (ps.bind Value.items?).getD [] ∧ isUsable p = true := List.mem_filter.1 h

theorem mem_merged {shared own : List Value} {p : Value} (h : p ∈ merged shared own) :
    p ∈ own ++ shared := by
  rcases List.mem_append.1 h with h | h
  · exact List.mem_append_right _ (List.mem_filter.1 h).1
  · exact List.mem_append_left _ h

theorem inline_of_mem_merged {item op : Value} (hitem : InlineItem item)
    (hop : InlineOperation (usable (item.get? "parameters")) op) {p : Value}
    (hp : p ∈ merged (usable (item.get? "parameters")) (usable (op.get? "parameters"))) :
    isUsable p = true ∧ p.reference? = none := by
  rcases List.mem_append.1 (mem_merged hp) with hown | hshared
  · exact ⟨(usable_of_mem hown).2, hop.parameters p (usable_of_mem hown).1⟩
  · exact ⟨(usable_of_mem hshared).2, hitem.parameters p (usable_of_mem hshared).1⟩

theorem merge_eq_ok {shared own ps : List Value} : merge shared own = .ok ps ↔
    (∀ p, p ∈ own ++ shared → isIdentifiable p = true) ∧ ps = merged shared own := by
  rw [merge, merged]
  split
  next h =>
    rw [List.all_eq_true] at h
    exact ⟨fun e => ⟨h, (Except.ok.inj e).symm⟩, fun e => congrArg Except.ok e.2.symm⟩
  next h =>
    rw [List.all_eq_true] at h
    exact ⟨fun e => (nomatch e), fun e => absurd e.1 h⟩

/-- The arguments of a migrated operation are collected as they stand. -/
theorem outcome_collect_arguments {ps : List Value} (husable : ∀ p, p ∈ ps → isUsable p = true)
    (hinline : ∀ p, p ∈ ps → p.reference? = none) :
    (collect d (some (list (arguments ps)))).outcome = .ok (arguments ps) := by
  have hof : ∀ q, q ∈ arguments ps → ∃ p, p ∈ ps ∧ parameter p = q := by
    intro q hq
    obtain ⟨p, hp, rfl⟩ := List.mem_map.1 hq
    exact ⟨p, (List.mem_filter.1 hp).1, rfl⟩
  have hinline' : ∀ q, q ∈ arguments ps → q.reference? = none := by
    intro q hq
    obtain ⟨p, hp, rfl⟩ := hof q hq
    rw [reference?_parameter, hinline p hp]
  have hkept : (arguments ps).filter isUsable = arguments ps := by
    refine List.filter_eq_self.2 fun q hq => ?_
    obtain ⟨p, hp, rfl⟩ := hof q hq
    rw [isUsable_parameter, husable p hp]
  have hcollect := outcome_collectItems (d := d) hinline'
  rw [hkept] at hcollect
  exact hcollect

/-- They are all of its parameters, since its path has none. -/
theorem merge_arguments {ps : List Value} (h : ∀ p, p ∈ ps → isIdentifiable p = true) :
    merge [] (arguments ps) = .ok (arguments ps) := by
  refine merge_eq_ok.2 ⟨fun q hq => ?_, rfl⟩
  rw [List.append_nil] at hq
  obtain ⟨p, hp, rfl⟩ := List.mem_map.1 hq
  rw [isIdentifiable_parameter, h p (List.mem_filter.1 hp).1]

/-! ## Answers -/

theorem contentSchema_content {s : Value} (h : s.isMap = true) :
    contentSchema (some (content s)) = some <$> Schema.ofValue s := by
  have hmedia : (content s).get? Extraction.jsonMediaType = some (map [(str "schema", s)]) := rfl
  have hschema : schemaUnder "schema" (map [(str "schema", s)]) = some s := by
    have hget : (map [(str "schema", s)]).get? "schema" = some s := rfl
    rw [schemaUnder, hget, Option.filter_some, h]
    rfl
  rw [contentSchema, Option.bind_some, Extraction.preferredMedia, hmedia]
  have hgiven : (some (map [(str "schema", s)])).filter (fun m => !m.same .null) =
      some (map [(str "schema", s)]) := rfl
  rw [hgiven]
  dsimp only
  rw [Option.bind_some, hschema]
  rfl

theorem reference?_response (r : Value) : (response r).reference? = r.reference? := by
  rw [Value.reference?, response, Value.get?_replace_of_ne _ (by decide),
    Value.get?_replace_of_ne _ (by decide), Value.reference?]

theorem content_response (r : Value) : (response r).get? "content" =
    (schemaUnder "schema" r).map fun s => content s.moved := by
  rw [response]
  cases hmap : r.isMap with
  | true => rw [Value.get?_replace ((Value.isMap_replace _ _ _).trans hmap), if_pos rfl]
  | false =>
    rw [Value.get?_eq_none, schemaUnder, Value.get?_eq_none hmap]
    · rfl
    · rw [Value.isMap_replace, Value.isMap_replace, hmap]

/-- The schema of an answer is what it was before, with its references moved. -/
theorem responseSchema_response (hd : d.family = .swagger2) (r : Value) :
    responseSchema (d.migrated root)
    (response r) = Option.map Schema.moved <$> responseSchema d r := by
  have hold : d.isSwagger2 = true := decide_eq_true hd
  have hnew : (d.migrated root).isSwagger2 = false := rfl
  rw [responseSchema, hnew, responseSchema, hold, content_response]
  cases hs : schemaUnder "schema" r with
  | none => rfl
  | some s =>
    have hmap := (Option.filter_eq_some_iff.1 hs).2
    have hmoved : s.moved.isMap = true := (Value.isMap_moved s).trans hmap
    rw [Option.map_some, if_neg Bool.false_ne_true, contentSchema_content hmoved,
      Schema.ofValue_moved, if_pos rfl]
    dsimp only
    rw [map_bind, ← comp_map, map_eq_pure_bind]
    rfl

/-- The answers of an operation are those from before. -/
theorem outcome_responsesFrom (root : Value) (hd : d.family = .swagger2) {es : List (Value × Value)}
    (hinline : ∀ e, e ∈ es → e.2.reference? = none) {done rs : Ordered Schema}
    (h : (responsesFrom d done es).outcome = .ok rs) :
    (responsesFrom (d.migrated root) (done.map fun e => (e.1, e.2.moved))
      (es.map fun e => (e.1, response e.2))).outcome = .ok (rs.map fun e => (e.1, e.2.moved)) := by
  induction es generalizing done with
  | nil =>
    cases h
    rfl
  | cons e rest ih =>
    obtain ⟨status, r⟩ := e
    have hr : r.reference? = none := hinline _ List.mem_cons_self
    have hrest := fun e he => hinline e (List.mem_cons_of_mem _ he)
    rw [responsesFrom, dereference_of_inline hr, pure_bind] at h
    obtain ⟨s, hs, h⟩ := Checked.outcome_bind_eq_ok.1 h
    have hresponse : (response r).reference? = none := (reference?_response r).trans hr
    rw [List.map_cons, responsesFrom, dereference_of_inline hresponse, pure_bind]
    refine Checked.outcome_bind_eq_ok.2 ⟨s.map Schema.moved, ?_, ?_⟩
    · rw [Checked.outcome_ofExcept] at hs ⊢
      rw [responseSchema_response hd, hs]
      rfl
    · cases s with
      | none => exact ih hrest h
      | some s =>
        have hput := Ordered.put_map Schema.moved done status.display s
        dsimp only [Option.map_some]
        rw [hput]
        exact ih hrest h

/-! ## Operations -/

theorem get?_operation (shared : List Value) (op : Value) {key : String}
    (hparameters : key ≠ "parameters") (hbody : key ≠ "requestBody")
    (hresponses : key ≠ "responses") :
    (operation shared op).get? key = op.get? key := by
  rw [operation, Value.get?_replace_of_ne _ hresponses, Value.get?_replace_of_ne _ hbody,
    Value.get?_replace_of_ne _ hparameters]

theorem isMap_operation (shared : List Value) (op : Value) :
    (operation shared op).isMap = op.isMap := by
  simp only [operation, Value.isMap_replace]

variable {shared : List Value} {op : Value}

theorem parameters_operation (h : op.isMap = true) : (operation shared op).get? "parameters" =
    some (list (arguments (merged shared (usable (op.get? "parameters"))))) := by
  simp [operation, Value.get?_replace, Value.isMap_replace, h]

theorem requestBody_operation (h : op.isMap = true) : (operation shared op).get? "requestBody" =
    (payload? (merged shared (usable (op.get? "parameters")))).map fun s =>
    requestBody s.moved := by
  simp [operation, Value.get?_replace, Value.isMap_replace, h]

theorem responses_operation (h : op.isMap = true) : (operation shared op).get? "responses" =
    (op.get? "responses").map (·.mapFields fun _ r => response r) := by
  simp [operation, Value.get?_replace, Value.isMap_replace, h]

theorem texts_operation (shared : List Value) (op : Value) :
    Extraction.texts (operation shared op) = Extraction.texts op := by
  rw [Extraction.texts, Extraction.texts]
  dsimp only
  rw [get?_operation shared op (by decide) (by decide) (by decide),
    get?_operation shared op (by decide) (by decide) (by decide),
    get?_operation shared op (by decide) (by decide) (by decide)]

theorem filter_location_map (location : Location) (ps : List Parameter) :
    (ps.map Parameter.moved).filter (fun p => decide (p.location = location)) =
      (ps.filter fun p => decide (p.location = location)).map Parameter.moved := by
  rw [List.filter_map]
  rfl

/-- What is read from the request body of an operation is what was read from its parameters. -/
theorem outcome_bodyOfRequest (hmap : op.isMap = true) (hop : InlineOperation shared op)
    {b : Option Schema}
    (h : Extraction.bodyOfParameters (merged shared (usable (op.get? "parameters"))) = .ok b) :
    (Extraction.bodyOfRequest (d.migrated root)
      ((operation shared op).get? "requestBody")).outcome = .ok (b.map Schema.moved) := by
  rw [requestBody_operation hmap, Extraction.bodyOfRequest]
  rcases bodyOfParameters_payload h hop.body with ⟨v, s, hv, hvmap, hs, rfl⟩ | ⟨hnone, rfl⟩
  · have hinline : (requestBody v.moved).reference? = none := rfl
    have hcontent : (requestBody v.moved).get? "content" = some (content v.moved) := rfl
    rw [hv, Option.map_some, Option.getD_some, dereference_of_inline hinline, pure_bind, hcontent,
      Checked.outcome_ofExcept, contentSchema_content ((Value.isMap_moved v).trans hvmap),
      Schema.ofValue_moved, hs]
    rfl
  · have hinline : Value.null.reference? = none := rfl
    rw [hnone, Option.map_none, Option.getD_none, dereference_of_inline hinline, pure_bind]
    rfl

/-- One operation of a migrated document is read as before. -/
theorem outcome_operation (hd : d.family = .swagger2) (hmap : op.isMap = true)
    (hop : InlineOperation shared op) {path : String} {m : Method} {o : Operation}
    (h : (Extraction.operation d path m op
      (merged shared (usable (op.get? "parameters")))).outcome = .ok o) :
    (Extraction.operation (d.migrated root) path m (operation shared op)
      (arguments (merged shared (usable (op.get? "parameters"))))).outcome = .ok o.moved := by
  have hold : d.isSwagger2 = true := decide_eq_true hd
  have hnew : (d.migrated root).isSwagger2 = false := rfl
  rw [Extraction.operation, hold] at h
  obtain ⟨parsed, hparsed, h⟩ := Checked.outcome_bind_eq_ok.1 h
  obtain ⟨b, hb, h⟩ := Checked.outcome_bind_eq_ok.1 h
  obtain ⟨responses, hresponses, h⟩ := Checked.outcome_bind_eq_ok.1 h
  obtain ⟨texts, htexts, h⟩ := Checked.outcome_bind_eq_ok.1 h
  cases h
  have hparsed' := parameters_arguments (merged shared (usable (op.get? "parameters")))
  rw [Checked.outcome_ofExcept] at hparsed hb htexts
  rw [hparsed] at hparsed'
  have hresponses' := outcome_responsesFrom root hd hop.responses hresponses
  have hentries : ((((operation shared op).get? "responses").map Value.entries).getD []) =
      (((op.get? "responses").map Value.entries).getD []).map fun e => (e.1, response e.2) := by
    rw [responses_operation hmap]
    cases op.get? "responses" with
    | none => rfl
    | some r => exact Value.entries_mapFields _ r
  have htags : (operation shared op).list? "tags" = op.list? "tags" := by
    rw [Value.list?, get?_operation shared op (by decide) (by decide) (by decide), Value.list?]
  have hdeprecated : (operation shared op).get? "deprecated" = op.get? "deprecated" :=
    get?_operation shared op (by decide) (by decide) (by decide)
  -- the steps of reading again, each with what it gives for the migrated operation
  rw [Extraction.operation, hnew]
  refine Checked.outcome_bind_eq_ok.2 ⟨parsed.map Parameter.moved, hparsed', ?_⟩
  refine Checked.outcome_bind_eq_ok.2 ⟨b.map Schema.moved, outcome_bodyOfRequest hmap hop hb, ?_⟩
  refine Checked.outcome_bind_eq_ok.2 ⟨responses.map fun e => (e.1, e.2.moved), ?_, ?_⟩
  · rw [hentries]
    exact hresponses'
  refine Checked.outcome_bind_eq_ok.2 ⟨texts, (texts_operation shared op).trans htexts, ?_⟩
  rw [Checked.outcome_pure, htags, hdeprecated, filter_location_map, filter_location_map,
    filter_location_map]
  rfl

/-! ## Paths -/

theorem get?_pathItem (item : Value) (m : Method) : (pathItem item).get? m.word =
    (item.get? m.word).map fun op =>
      if op.isMap then operation (usable (item.get? "parameters")) op else op := by
  have hword : m.word ≠ "parameters" := by cases m <;> decide
  have hmethod : (Method.all.any fun m' => (str m.word).isStr m'.word) = true :=
    List.any_eq_true.2 ⟨m, m.mem_all, decide_eq_true rfl⟩
  rw [pathItem, Value.get?_replace_of_ne _ hword, Value.get?_mapFields, hmethod]
  rfl

theorem parameters_pathItem {item : Value} (h : item.isMap = true) :
    (pathItem item).get? "parameters" = none := by
  rw [pathItem, Value.get?_replace ((Value.isMap_mapFields _ _).trans h), if_pos rfl]

theorem isMap_pathItem (item : Value) : (pathItem item).isMap = item.isMap := by
  rw [pathItem, Value.isMap_replace, Value.isMap_mapFields]

/-- The operations of a path are those from before: its parameters are theirs already. -/
theorem outcome_operationsOfMethods (hd : d.family = .swagger2) {path : String} {item : Value}
    (hitem : InlineItem item) {ms : List Method} {os : List Operation}
    (h : (operationsOfMethods d path item (usable (item.get? "parameters")) ms).outcome = .ok os) :
    (operationsOfMethods (d.migrated root) path (pathItem item) [] ms).outcome =
      .ok (os.map Operation.moved) := by
  induction ms generalizing os with
  | nil =>
    cases h
    rfl
  | cons m rest ih =>
    rw [operationsOfMethods] at h ⊢
    rw [get?_pathItem]
    cases hget : item.get? m.word with
    | none =>
      rw [hget] at h
      exact ih h
    | some op =>
      rw [hget, Option.filter_some] at h
      rw [Option.map_some, Option.filter_some]
      cases hmap : op.isMap with
      | false =>
        rw [hmap] at h
        rw [if_neg Bool.false_ne_true, hmap]
        exact ih h
      | true =>
        have hop := hitem.operations m m.mem_all op
          (by rw [hget]; exact Option.filter_eq_some_iff.2 ⟨rfl, hmap⟩)
        rw [hmap] at h
        obtain ⟨own, hown, h⟩ := Checked.outcome_bind_eq_ok.1 h
        obtain ⟨ps, hps, h⟩ := Checked.outcome_bind_eq_ok.1 h
        obtain ⟨o, ho, h⟩ := Checked.outcome_bind_eq_ok.1 h
        obtain ⟨others, hothers, h⟩ := Checked.outcome_bind_eq_ok.1 h
        cases h
        rw [outcome_collect hop.parameters] at hown
        cases hown
        obtain ⟨hidentifiable, rfl⟩ := merge_eq_ok.1 hps
        rw [if_pos rfl, isMap_operation, hmap, if_pos rfl]
        -- what was merged for the operation stands among its own parameters now
        have hcollect := outcome_collect_arguments (d := d.migrated root)
          (fun p hp => (inline_of_mem_merged hitem hop hp).1)
          (fun p hp => (inline_of_mem_merged hitem hop hp).2)
        rw [← parameters_operation hmap] at hcollect
        refine Checked.outcome_bind_eq_ok.2 ⟨_, hcollect, ?_⟩
        refine Checked.outcome_bind_eq_ok.2
          ⟨_, merge_arguments fun p hp => hidentifiable p (mem_merged hp), ?_⟩
        exact Checked.outcome_bind_eq_ok.2 ⟨o.moved, outcome_operation hd hmap hop ho,
          Checked.outcome_bind_eq_ok.2 ⟨others.map Operation.moved, ih hothers, rfl⟩⟩

/-- The operations of some paths are those from before. -/
theorem outcome_operationsOfPaths (hd : d.family = .swagger2) {paths : List (String × Value)}
    (hitems : ∀ e, e ∈ paths → e.2.isMap = true → InlineItem e.2) {os : List Operation}
    (h : (operationsOfPaths d paths).outcome = .ok os) :
    (operationsOfPaths (d.migrated root) (paths.map fun e => (e.1, pathItem e.2))).outcome =
      .ok (os.map Operation.moved) := by
  induction paths generalizing os with
  | nil =>
    cases h
    rfl
  | cons e rest ih =>
    obtain ⟨path, item⟩ := e
    have hrest := fun e he => hitems e (List.mem_cons_of_mem _ he)
    rw [operationsOfPaths] at h
    rw [List.map_cons, operationsOfPaths, isMap_pathItem]
    cases hmap : item.isMap with
    | false =>
      rw [hmap] at h
      obtain ⟨_, -, h⟩ := Checked.outcome_bind_eq_ok.1 h
      exact Checked.outcome_bind_eq_ok.2 ⟨(), rfl, ih hrest h⟩
    | true =>
      have hitem := hitems (path, item) List.mem_cons_self hmap
      rw [hmap] at h
      obtain ⟨shared, hshared, h⟩ := Checked.outcome_bind_eq_ok.1 h
      obtain ⟨own, hown, h⟩ := Checked.outcome_bind_eq_ok.1 h
      obtain ⟨others, hothers, h⟩ := Checked.outcome_bind_eq_ok.1 h
      cases h
      rw [outcome_collect hitem.parameters] at hshared
      cases hshared
      rw [if_pos rfl, parameters_pathItem hmap, List.map_append]
      refine Checked.outcome_bind_eq_ok.2 ⟨[], rfl, ?_⟩
      refine Checked.outcome_bind_eq_ok.2 ⟨_, outcome_operationsOfMethods hd hitem hown, ?_⟩
      exact Checked.outcome_bind_eq_ok.2 ⟨_, ih hrest hothers, rfl⟩

/-- The operations of a migrated document are those from before. -/
theorem outcome_operations (hd : d.family = .swagger2)
    (hitems : ∀ e, e ∈ d.paths → e.2.isMap = true → InlineItem e.2) {os : List Operation}
    (h : d.operations.outcome = .ok os) :
    (d.migrated root).operations.outcome = .ok (os.map Operation.moved) := by
  rw [Document.operations] at h ⊢
  obtain ⟨os', hos, h⟩ := Checked.outcome_bind_eq_ok.1 h
  obtain ⟨_, -, h⟩ := Checked.outcome_bind_eq_ok.1 h
  cases h
  exact Checked.outcome_bind_eq_ok.2 ⟨_, outcome_operationsOfPaths hd hitems hos,
    Checked.outcome_bind_eq_ok.2 ⟨(), rfl, rfl⟩⟩

end Migration

end TypedClients
