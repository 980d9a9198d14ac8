import TypedClients.Proofs.Migration.Types
import TypedClients.Proofs.Operation.Pointers
import TypedClients.Proofs.Schema.Formats

/-!
# What the operations of a document cannot be read for

Most fields of an operation may hold anything: what is of the wrong kind is passed over or
turned into a text. The exceptions are collected here. An operation is not read if

* a reference among its parameters, its request body or its answers trips (`Mislaid`);
* a parameter has a name or a place that is a list or an object (`Unmatched`);
* a schema that is read along with it has a stray format (`Schema.Unread`);
* the description of a parameter, or one of its own texts, is no text.

Otherwise it is read, and its schemas can be written (`failsFor_operations`).
-/

namespace TypedClients

open Migration (schemaOf merged)
open Schema (Unread)
open Value (IsJson str map)

variable {d : Document} {item op p r : Value} {ps : List Value}

/-- An operation whose schemas can all be written. -/
structure Operation.Printable (o : Operation) : Prop where
  schemas : ∀ s, s ∈ o.schemas → s.Printable
  parameters : ∀ q, q ∈ o.pathParams ++ o.queryParams ++ o.headerParams → q.schema.Printable

theorem Ordered.mem_put {α : Type} {t : Ordered α} {name : String} {a : α} {e : String × α}
    (h : e ∈ t.put name a) : e ∈ t ∨ e.2 = a := by
  induction t with
  | nil => exact Or.inr (congrArg Prod.snd (List.mem_singleton.1 h))
  | cons e' rest ih =>
    obtain ⟨n, b⟩ := e'
    rw [put] at h
    split at h
    · rcases List.mem_cons.1 h with rfl | h
      · exact Or.inr rfl
      · exact Or.inl (List.mem_cons_of_mem _ h)
    · rcases List.mem_cons.1 h with rfl | h
      · exact Or.inl List.mem_cons_self
      · exact (ih h).imp_left (List.mem_cons_of_mem _)

namespace Extraction

/-! ## Parameters -/

/-- A parameter that cannot be told apart from others, and how this is reported. -/
def Unmatched (ps : List Value) (f : Failure) : Prop :=
  f = .mishap .wrongType ∧ ∃ p, p ∈ ps ∧ isIdentifiable p = false

theorem failsFor_merge (shared own : List Value) :
    FailsFor (merge shared own) (Unmatched (own ++ shared)) fun ps => ps = merged shared own := by
  rw [merge]
  split
  next hall =>
    rw [List.all_eq_true] at hall
    refine .of_ok rfl fun f hf => ?_
    obtain ⟨-, p, hp, hno⟩ := hf
    rw [hall p hp] at hno
    exact Bool.noConfusion hno
  next hall =>
    rw [List.all_eq_true] at hall
    obtain ⟨p, hp⟩ := not_forall.1 hall
    obtain ⟨hmem, hno⟩ := Classical.not_imp.1 hp
    exact .of_error ⟨rfl, p, hmem, Bool.eq_false_iff.2 hno⟩

theorem isJson_schemaUnder {key : String} {s : Value} (h : p.IsJson)
    (hs : schemaUnder key p = some s) :
    s.IsJson := h.get? (Option.filter_eq_some_iff.1 hs).1

theorem isJson_schemaOf (h : p.IsJson) : (schemaOf p).IsJson := by
  rw [schemaOf]
  cases hs : schemaUnder "schema" p with
  | some s => exact isJson_schemaUnder h hs
  | none =>
    -- the keywords come with the values they have on the parameter
    have hinline : ∀ e, e ∈ (inlineKeywords.filterMap fun k => (p.get? k).map (str k, ·)) →
        (∃ s, e.1 = str s) ∧ e.2.IsJson := by
      intro e he
      obtain ⟨k, -, hk⟩ := List.mem_filterMap.1 he
      obtain ⟨v, hv, rfl⟩ := Option.map_eq_some_iff.1 hk
      exact ⟨⟨k, rfl⟩, h.get? hv⟩
    have htyped : ∀ e, e ∈ (if p.has "type" then
        inlineKeywords.filterMap fun k => (p.get? k).map (str k, ·)
        else (inlineKeywords.filterMap fun k => (p.get? k).map (str k, ·)) ++
          [(str "type", str "string")]) → (∃ s, e.1 = str s) ∧ e.2.IsJson := by
      intro e he
      split at he
      · exact hinline e he
      · rcases List.mem_append.1 he with he | he
        · exact hinline e he
        · rw [List.mem_singleton.1 he]
          exact ⟨⟨"type", rfl⟩, .str "string"⟩
    exact .map (fun e he => (htyped e he).1) fun e he => (htyped e he).2

theorem failsFor_parameterSchema (h : p.IsJson) :
    FailsFor (parameterSchema p) (Unread (schemaOf p)) Schema.Printable := by
  rw [Migration.parameterSchema_eq]
  exact Schema.failsFor_ofValue _ (isJson_schemaOf h)

/-- What a parameter that members take an argument for is not read for. -/
def StrayParameter (p : Value) (f : Failure) : Prop :=
  (location? p).isSome ∧
    (Unread (schemaOf p) f ∨
      (f = noText "Parameter" "description" ∧ p.holdsNoText "description" = true))

theorem failsFor_parameter (h : p.IsJson) (location : Location) :
    FailsFor (parameter p location)
      (fun f => Unread (schemaOf p) f ∨
        (f = noText "Parameter" "description" ∧ p.holdsNoText "description" = true))
      fun q => q.schema.Printable := by
  rw [parameter]
  exact (failsFor_parameterSchema h).bind fun s hs =>
    (Schema.failsFor_textField h "Parameter" "description" "description").map fun _ _ => hs

theorem failsFor_parameters (h : ∀ p, p ∈ ps → p.IsJson) :
    FailsFor (parameters ps) (fun f => ∃ p, p ∈ ps ∧ StrayParameter p f)
      fun qs => ∀ q, q ∈ qs → q.schema.Printable := by
  induction ps with
  | nil => exact .of_ok (fun q hq => absurd hq List.not_mem_nil) fun f hf =>
    FailsFor.exists_mem_nil hf
  | cons p rest ih =>
    have hrest := ih fun q hq => h q (List.mem_cons_of_mem _ hq)
    rw [parameters]
    cases hlocation : location? p with
    | none =>
      refine hrest.congr fun f => Iff.trans ?_ FailsFor.exists_mem_cons
      refine (or_iff_right fun hp => ?_).symm
      exact absurd hp.1 (by rw [hlocation]; exact Bool.false_ne_true)
    | some location =>
      have hsome : (location? p).isSome = true := by rw [hlocation]; rfl
      refine FailsFor.congr ((failsFor_parameter (h p List.mem_cons_self) location).bind fun q hq =>
        hrest.map fun qs hqs => List.forall_mem_cons.2 ⟨hq, hqs⟩) fun f => ?_
      refine Iff.trans (or_congr_left ?_) FailsFor.exists_mem_cons
      exact ⟨fun hf => ⟨hsome, hf⟩, And.right⟩

/-! ## Bodies -/

theorem failsFor_formProperties (h : ∀ p, p ∈ ps → p.IsJson) {done : Ordered Schema}
    (hdone : ∀ e, e ∈ done → e.2.Printable) :
    FailsFor (formProperties done ps) (fun f => ∃ w, w ∈ ps.map schemaOf ∧ Unread w f)
      fun t => ∀ e, e ∈ t → e.2.Printable := by
  induction ps generalizing done with
  | nil => exact .of_ok hdone fun f hf => FailsFor.exists_mem_nil hf
  | cons p rest ih =>
    rw [formProperties]
    refine FailsFor.congr ((failsFor_parameterSchema (h p List.mem_cons_self)).bind fun s hs =>
      ih (fun q hq => h q (List.mem_cons_of_mem _ hq)) fun e he => ?_) fun f =>
      FailsFor.exists_mem_cons
    rcases Ordered.mem_put he with he | he
    · exact hdone e he
    · rw [he]
      exact hs

/-- The schemas of the body that parameters describe. -/
def payloads (ps : List Value) : List Value :=
  match ps.find? (isIn "body") with
  | some body => [(body.get? "schema").getD .null]
  | none => (ps.filter (isIn "formData")).map schemaOf

theorem failsFor_bodyOfParameters (h : ∀ p, p ∈ ps → p.IsJson) :
    FailsFor (bodyOfParameters ps) (fun f => ∃ w, w ∈ payloads ps ∧ Unread w f)
      fun b => ∀ s : Schema, b = some s → s.Printable := by
  rw [bodyOfParameters, payloads]
  cases hbody : ps.find? (isIn "body") with
  | some body =>
    have hjson : ((body.get? "schema").getD .null).IsJson :=
      (h body (List.mem_of_find?_eq_some hbody)).getD
    refine FailsFor.congr ((Schema.failsFor_ofValue _ hjson).map fun s hs s' he =>
      Option.some.inj he ▸ hs) fun f => ?_
    simp only [List.mem_singleton, exists_eq_left]
  | none =>
    have hfields : ∀ p, p ∈ ps.filter (isIn "formData") → p.IsJson :=
      fun p hp => h p (List.mem_filter.1 hp).1
    have hnone : ∀ e : String × Schema, e ∈ [] → e.2.Printable :=
      fun e he => absurd he List.not_mem_nil
    have hproperties := failsFor_formProperties hfields hnone
    dsimp only
    split
    next hempty =>
      rw [List.isEmpty_iff.1 hempty]
      exact .of_ok (fun s hs => absurd hs (Option.not_mem_none s)) fun f hf =>
        FailsFor.exists_mem_nil hf
    next => exact hproperties.map fun t ht s hs => Option.some.inj hs ▸ .object ht

/-- The schema of a content table, as it is written there. -/
def mediaSchema? (content : Option Value) : Option Value :=
  (content.bind preferredMedia).bind (schemaUnder "schema")

theorem isJson_mediaSchema? {content : Option Value} {s : Value}
    (h : ∀ c, content = some c → c.IsJson) (hs : mediaSchema? content = some s) : s.IsJson := by
  obtain ⟨media, hmedia, hs⟩ := Option.bind_eq_some_iff.1 hs
  obtain ⟨c, hc, hmedia⟩ := Option.bind_eq_some_iff.1 hmedia
  have hjson : media.IsJson := by
    rw [preferredMedia] at hmedia
    split at hmedia
    next hjson =>
      cases hmedia
      exact (h c hc).get? (Option.filter_eq_some_iff.1 hjson).1
    next =>
      obtain ⟨e, he, rfl⟩ := Option.map_eq_some_iff.1 hmedia
      exact ((h c hc).of_mem_entries (List.mem_of_mem_head? he)).2
  exact isJson_schemaUnder hjson hs

/-- An optional schema object is read like a list of one or none. -/
theorem failsFor_optionalSchema {v : Option Value} (h : ∀ s, v = some s → s.IsJson) :
    FailsFor (match v with
        | some s => do return some (← Schema.ofValue s)
        | none => .ok none)
      (fun f => ∃ w, w ∈ v ∧ Unread w f) fun b => ∀ s, b = some s → s.Printable := by
  cases v with
  | none =>
    refine .of_ok (fun s hs => absurd hs (Option.not_mem_none s)) fun f hf => ?_
    obtain ⟨w, hw, -⟩ := hf
    exact Option.not_mem_none w hw
  | some s =>
    refine FailsFor.congr ((Schema.failsFor_ofValue s (h s rfl)).map fun s hs s' he =>
      Option.some.inj he ▸ hs) fun f => ?_
    simp only [Option.mem_def, Option.some.injEq, exists_eq_left']

theorem failsFor_contentSchema {content : Option Value} (h : ∀ c, content = some c → c.IsJson) :
    FailsFor (contentSchema content) (fun f => ∃ w, w ∈ mediaSchema? content ∧ Unread w f)
      fun b => ∀ s, b = some s → s.Printable := by
  rw [contentSchema]
  exact failsFor_optionalSchema fun s hs => isJson_mediaSchema? h hs

/-- The body of an operation, where the family of its document describes it. -/
def bodyOf (d : Document) (op : Value) (ps : List Value) : Checked (Option Schema) :=
  if d.isSwagger2 then Checked.ofExcept (bodyOfParameters ps)
  else bodyOfRequest d (op.get? "requestBody")

/-- The references that are followed for a body. -/
def bodyReferences (d : Document) (op : Value) : List Value :=
  if d.isSwagger2 then [] else [(op.get? "requestBody").getD .null]

/-- The schemas of the body of an operation. -/
def bodySchemas (d : Document) (op : Value) (ps : List Value) : List Value :=
  if d.isSwagger2 then payloads ps
  else (mediaSchema? ((target d ((op.get? "requestBody").getD .null)).get? "content")).toList

theorem failsFor_bodyOf (hd : d.root.IsJson) (hop : op.IsJson) (hps : ∀ p, p ∈ ps → p.IsJson) :
    FailsFor (bodyOf d op ps).outcome
      (fun f => (∃ v, v ∈ bodyReferences d op ∧ Mislaid d v f) ∨
        ∃ w, w ∈ bodySchemas d op ps ∧ Unread w f)
      fun b => ∀ s, b = some s → s.Printable := by
  rw [bodyOf, bodyReferences, bodySchemas]
  split
  next => exact (failsFor_bodyOfParameters hps).congr fun f =>
    (or_iff_right FailsFor.exists_mem_nil).symm
  next =>
    have htarget : (target d ((op.get? "requestBody").getD .null)).IsJson :=
      isJson_target hd hop.getD
    have hmedia : ∀ c, (target d ((op.get? "requestBody").getD .null)).get? "content" = some c →
        c.IsJson := fun c hc => htarget.get? hc
    rw [bodyOfRequest]
    refine FailsFor.congr (FailsFor.checked_bind (failsFor_dereference hd _) fun body hbody => ?_)
      fun f => or_congr ?_ Iff.rfl
    · subst hbody
      exact (failsFor_contentSchema hmedia).congr fun f => by simp only [Option.mem_toList,
        Option.mem_def]
    · simp only [List.mem_singleton, exists_eq_left]

/-! ## Answers -/

/-- The schema of an answer, as it is written there. -/
def answerSchema? (d : Document) (r : Value) : Option Value :=
  if d.isSwagger2 then schemaUnder "schema" r else mediaSchema? (r.get? "content")

theorem failsFor_responseSchema (d : Document) (h : r.IsJson) :
    FailsFor (responseSchema d r) (fun f => ∃ w, w ∈ answerSchema? d r ∧ Unread w f)
      fun b => ∀ s, b = some s → s.Printable := by
  rw [responseSchema, answerSchema?]
  split
  · exact failsFor_optionalSchema fun s hs => isJson_schemaUnder h hs
  · exact failsFor_contentSchema fun c hc => h.get? hc

/-- What an answer is not read for. -/
def StrayAnswer (d : Document) (r : Value) (f : Failure) : Prop :=
  Mislaid d r f ∨ ∃ w, w ∈ answerSchema? d (target d r) ∧ Unread w f

theorem failsFor_responsesFrom (hd : d.root.IsJson) {es : List (Value × Value)}
    (hes : ∀ e, e ∈ es → e.2.IsJson) {done : Ordered Schema}
    (hdone : ∀ e, e ∈ done → e.2.Printable) :
    FailsFor (responsesFrom d done es).outcome
    (fun f => ∃ r, r ∈ es.map Prod.snd ∧ StrayAnswer d r f)
      fun t => ∀ e, e ∈ t → e.2.Printable := by
  induction es generalizing done with
  | nil => exact .of_ok hdone fun f hf => FailsFor.exists_mem_nil hf
  | cons e rest ih =>
    obtain ⟨status, response⟩ := e
    have hrest : ∀ e, e ∈ rest → e.2.IsJson := fun e he => hes e (List.mem_cons_of_mem _ he)
    have htarget := isJson_target hd (hes _ List.mem_cons_self)
    rw [responsesFrom]
    refine FailsFor.congr (?_ : FailsFor _ (fun f => StrayAnswer d response f ∨
      ∃ r, r ∈ rest.map Prod.snd ∧ StrayAnswer d r f) _) fun f => FailsFor.exists_mem_cons
    refine FailsFor.congr ((failsFor_dereference hd response).checked_bind fun r hr => ?_)
      fun f => or_assoc.symm
    subst hr
    refine FailsFor.checked_bind (failsFor_responseSchema d htarget) fun b hb => ?_
    cases b with
    | none => exact ih hrest hdone
    | some s =>
      refine ih hrest fun e he => ?_
      rcases Ordered.mem_put he with he | he
      · exact hdone e he
      · rw [he]
        exact hb s rfl

/-! ## Texts -/

/-- The texts of an operation, each with the name it is reported under. -/
def textFields : List (String × String) :=
  [("operationId", "operation_id"), ("summary", "summary"), ("description", "description")]

/-- The complaints about the texts of an operation. -/
def textIssues (op : Value) : List Issue :=
  (textFields.filter fun k => op.holdsNoText k.1).map fun k => ⟨[.field k.2], .notAString⟩

/-- What an operation is not read for itself: all its texts that are none, together. -/
def Wordless (op : Value) (f : Failure) : Prop :=
  textIssues op ≠ [] ∧ f = .invalid ⟨"OperationRecord", textIssues op⟩

theorem fit_text (h : op.IsJson) (key field : String) : ∃ o,
    (Model.optional Model.text ((op.get? key).getD .null)).under (.field field) =
      if op.holdsNoText key then .bad [⟨[.field field], .notAString⟩] else .good o := by
  rw [Value.holdsNoText]
  cases hv : op.get? key with
  | none => exact ⟨none, rfl⟩
  | some v =>
    cases h.get? hv with
    | null => exact ⟨none, rfl⟩
    | str s => exact ⟨some s, rfl⟩
    | _ => exact ⟨none, rfl⟩

theorem failsFor_texts (h : op.IsJson) : FailsFor (texts op) (Wordless op) fun _ => True := by
  obtain ⟨operationId, hid⟩ := fit_text h "operationId" "operation_id"
  obtain ⟨summary, hsummary⟩ := fit_text h "summary" "summary"
  obtain ⟨description, hdescription⟩ := fit_text h "description" "description"
  rw [texts]
  dsimp only
  rw [hid, hsummary, hdescription]
  have hissues : textIssues op =
      (if op.holdsNoText "operationId" then [⟨[.field "operation_id"], .notAString⟩] else []) ++
      (if op.holdsNoText "summary" then [⟨[.field "summary"], .notAString⟩] else []) ++
      if op.holdsNoText "description" then [⟨[.field "description"], .notAString⟩] else [] := by
    simp only [textIssues, textFields, List.filter_cons, List.filter_nil]
    split <;> split <;> split <;> rfl
  unfold Wordless
  rw [hissues]
  -- each of the three is a text or not
  split <;> split <;> split
  all_goals first
    | exact .of_error ⟨List.cons_ne_nil _ _, rfl⟩
    | exact .of_ok trivial fun f hf => hf.1 rfl

/-! ## Operations -/

/-- The answers of an operation. -/
def answers (op : Value) : List Value :=
  (((op.get? "responses").map Value.entries).getD []).map Prod.snd

/-- What an operation with these parameters is not read for. -/
inductive StrayOperation (d : Document) (op : Value) (ps : List Value) : Failure → Prop
  | parameter {p : Value} {f : Failure} (hp : p ∈ ps) (h : StrayParameter p f) :
    StrayOperation d op ps f
  | reference {v : Value} {f : Failure} (hv : v ∈ bodyReferences d op) (h : Mislaid d v f) :
    StrayOperation d op ps f
  | body {w : Value} {f : Failure} (hw : w ∈ bodySchemas d op ps) (h : Unread w f) :
    StrayOperation d op ps f
  | answer {r : Value} {f : Failure} (hr : r ∈ answers op) (h : StrayAnswer d r f) :
    StrayOperation d op ps f
  | texts {f : Failure} (h : Wordless op f) : StrayOperation d op ps f

theorem strayOperation_iff {f : Failure} : StrayOperation d op ps f ↔
    (∃ p, p ∈ ps ∧ StrayParameter p f) ∨
      ((∃ v, v ∈ bodyReferences d op ∧ Mislaid d v f) ∨ ∃ w, w ∈ bodySchemas d op ps ∧ Unread w f) ∨
        (∃ r, r ∈ answers op ∧ StrayAnswer d r f) ∨ Wordless op f := by
  constructor
  · intro h
    cases h with
    | parameter hp h => exact Or.inl ⟨_, hp, h⟩
    | reference hv h => exact Or.inr (Or.inl (Or.inl ⟨_, hv, h⟩))
    | body hw h => exact Or.inr (Or.inl (Or.inr ⟨_, hw, h⟩))
    | answer hr h => exact Or.inr (Or.inr (Or.inl ⟨_, hr, h⟩))
    | texts h => exact Or.inr (Or.inr (Or.inr h))
  · rintro (⟨p, hp, h⟩ | (⟨v, hv, h⟩ | ⟨w, hw, h⟩) | ⟨r, hr, h⟩ | h)
    · exact .parameter hp h
    · exact .reference hv h
    · exact .body hw h
    · exact .answer hr h
    · exact .texts h

theorem isJson_of_mem_answers (h : op.IsJson) :
    ∀ e, e ∈ ((op.get? "responses").map Value.entries).getD [] → e.2.IsJson := by
  cases hv : op.get? "responses" with
  | none => exact fun e he => absurd he List.not_mem_nil
  | some v => exact fun e he => ((h.get? hv).of_mem_entries he).2

/-- An operation is read, unless something in it is stray. -/
theorem failsFor_operation (hd : d.root.IsJson) (hop : op.IsJson) (hps : ∀ p, p ∈ ps → p.IsJson)
    (path : String) (m : Method) :
    FailsFor (operation d path m op ps).outcome (StrayOperation d op ps) Operation.Printable := by
  have hnone : ∀ e : String × Schema, e ∈ [] → e.2.Printable :=
    fun e he => absurd he List.not_mem_nil
  have hbody := failsFor_bodyOf hd hop hps
  have htexts : FailsFor (Checked.ofExcept (texts op)).outcome _ _ := failsFor_texts hop
  rw [bodyOf] at hbody
  refine FailsFor.congr (FailsFor.checked_bind (failsFor_parameters hps) fun parsed hparsed => ?_)
    fun f => strayOperation_iff.symm
  -- the two families differ in where the body is found only
  dsimp only
  cases hfamily : d.isSwagger2
  all_goals
    rw [hfamily] at hbody
    refine FailsFor.checked_bind hbody fun b hb => ?_
    refine FailsFor.checked_bind (failsFor_responsesFrom hd (isJson_of_mem_answers hop) hnone)
      fun t ht => ?_
    refine htexts.checked_map fun texts _ => ?_
    refine ⟨fun s hs => ?_, fun q hq => ?_⟩
    · rcases List.mem_append.1 hs with hs | hs
      · exact hb s (Option.mem_toList.1 hs)
      · obtain ⟨e, he, rfl⟩ := List.mem_map.1 hs
        exact ht e he
    · rw [List.mem_append, List.mem_append] at hq
      rcases hq with (hq | hq) | hq
      all_goals exact hparsed q (List.mem_filter.1 hq).1

/-! ## Paths -/

/-- The operation that a path item describes for a method. -/
def described? (item : Value) (m : Method) : Option Value := (item.get? m.word).filter Value.isMap

/-- The parameters of an operation, its own and those of its path. -/
def allTargets (d : Document) (item op : Value) : List Value :=
  merged (targets d (listed (item.get? "parameters"))) (targets d (listed (op.get? "parameters")))

/-- What a method of a path is not read for. -/
inductive StrayMethod (d : Document) (item op : Value) : Failure → Prop
  | reference {v : Value} {f : Failure} (hv : v ∈ listed (op.get? "parameters"))
    (h : Mislaid d v f) :
    StrayMethod d item op f
  | unmatched {f : Failure} (h : Unmatched (targets d (listed (op.get? "parameters")) ++
      targets d (listed (item.get? "parameters"))) f) : StrayMethod d item op f
  | operation {f : Failure} (h : StrayOperation d op (allTargets d item op) f) :
    StrayMethod d item op f

theorem strayMethod_iff {f : Failure} : StrayMethod d item op f ↔
    (∃ v, v ∈ listed (op.get? "parameters") ∧ Mislaid d v f) ∨
      Unmatched (targets d (listed (op.get? "parameters")) ++
        targets d (listed (item.get? "parameters"))) f ∨
      StrayOperation d op (allTargets d item op) f := by
  constructor
  · intro h
    cases h with
    | reference hv h => exact Or.inl ⟨_, hv, h⟩
    | unmatched h => exact Or.inr (Or.inl h)
    | operation h => exact Or.inr (Or.inr h)
  · rintro (⟨v, hv, h⟩ | h | h)
    · exact .reference hv h
    · exact .unmatched h
    · exact .operation h

/-- What is listed for a JSON object stands for JSON values. -/
theorem isJson_of_mem_targets {v : Value} (hd : d.root.IsJson) (hv : v.IsJson)
    (hp : p ∈ targets d (listed (v.get? "parameters"))) : p.IsJson := by
  obtain ⟨q, hq, rfl⟩ := List.mem_map.1 (List.mem_filter.1 hp).1
  refine isJson_target hd ?_
  rw [listed] at hq
  cases hitems : (v.get? "parameters").bind Value.items? with
  | none =>
    rw [hitems] at hq
    exact absurd hq List.not_mem_nil
  | some items =>
    rw [hitems] at hq
    exact hv.list? hitems hq

theorem isJson_of_mem_allTargets (hd : d.root.IsJson) (hitem : item.IsJson) (hop : op.IsJson)
    (hp : p ∈ allTargets d item op) : p.IsJson := by
  rcases List.mem_append.1 (Migration.mem_merged hp) with hp | hp
  · exact isJson_of_mem_targets hd hop hp
  · exact isJson_of_mem_targets hd hitem hp

/-- The operations of a path are read, unless one of them is stray. -/
theorem failsFor_operationsOfMethods (hd : d.root.IsJson) (hitem : item.IsJson) (path : String)
    (ms : List Method) :
    FailsFor (operationsOfMethods d path item (targets d (listed (item.get? "parameters")))
      ms).outcome (fun f => ∃ m, m ∈ ms ∧ ∃ op, op ∈ described? item m ∧ StrayMethod d item op f)
      fun os => ∀ o, o ∈ os → o.Printable := by
  induction ms with
  | nil =>
    refine .of_ok (fun o ho => absurd ho List.not_mem_nil) fun f hf => ?_
    obtain ⟨m, hm, -⟩ := hf
    exact List.not_mem_nil hm
  | cons m rest ih =>
    refine FailsFor.congr (?_ : FailsFor _ (fun f =>
      (∃ op, op ∈ described? item m ∧ StrayMethod d item op f) ∨
        ∃ m, m ∈ rest ∧ ∃ op, op ∈ described? item m ∧ StrayMethod d item op f) _)
      fun f => by simp only [List.mem_cons, exists_eq_or_imp]
    rw [operationsOfMethods]
    cases hop : described? item m with
    | none =>
      have hnone : ∀ f, ¬ ∃ op, op ∈ none ∧ StrayMethod d item op f := by
        rintro f ⟨op, hop, -⟩
        exact Option.not_mem_none op hop
      rw [described?] at hop
      rw [hop]
      exact ih.congr fun f => (or_iff_right (hnone f)).symm
    | some op =>
      have hjson : op.IsJson := hitem.get? (Option.filter_eq_some_iff.1 hop).1
      have hsame : ∀ f, StrayMethod d item op f ↔ ∃ op', op' ∈ some op ∧ StrayMethod d item op' f :=
        fun f => by simp only [Option.mem_def, Option.some.injEq, exists_eq_left']
      rw [described?] at hop
      rw [hop]
      refine FailsFor.congr (?_ : FailsFor _ (fun f => StrayMethod d item op f ∨
        ∃ m, m ∈ rest ∧ ∃ op, op ∈ described? item m ∧ StrayMethod d item op f) _)
        fun f => or_congr_left (hsame f)
      refine FailsFor.congr (?_ : FailsFor _ (fun f => _ ∨ _ ∨ _ ∨ _) _) fun f =>
        (or_congr_right or_assoc.symm).trans
          (or_assoc.symm.trans (or_congr_left strayMethod_iff.symm))
      refine FailsFor.checked_bind (failsFor_collect hd _) fun own hown => ?_
      subst hown
      refine FailsFor.checked_bind (failsFor_merge _ _) fun ps hps => ?_
      subst hps
      refine FailsFor.checked_bind (failsFor_operation hd hjson
        (fun p hp => isJson_of_mem_allTargets hd hitem hjson hp) path m) fun o ho => ?_
      exact ih.checked_map fun os hos => List.forall_mem_cons.2 ⟨ho, hos⟩

/-- What a path is not read for. -/
def StrayItem (d : Document) (item : Value) (f : Failure) : Prop :=
  item.isMap = true ∧
    ((∃ v, v ∈ listed (item.get? "parameters") ∧ Mislaid d v f) ∨
      ∃ m op, op ∈ described? item m ∧ StrayMethod d item op f)

/-- The operations of some paths are read, unless one of the paths is stray. -/
theorem failsFor_operationsOfPaths (hd : d.root.IsJson) {paths : List (String × Value)}
    (hpaths : ∀ e, e ∈ paths → e.2.IsJson) :
    FailsFor (operationsOfPaths d paths).outcome
      (fun f => ∃ item, item ∈ paths.map Prod.snd ∧ StrayItem d item f)
      fun os => ∀ o, o ∈ os → o.Printable := by
  induction paths with
  | nil => exact .of_ok (fun o ho => absurd ho List.not_mem_nil) fun f hf =>
    FailsFor.exists_mem_nil hf
  | cons e rest ih =>
    obtain ⟨path, item⟩ := e
    have hitem : item.IsJson := hpaths _ List.mem_cons_self
    have hrest := ih fun e he => hpaths e (List.mem_cons_of_mem _ he)
    rw [operationsOfPaths]
    refine FailsFor.congr (?_ : FailsFor _ (fun f => StrayItem d item f ∨
      ∃ item, item ∈ rest.map Prod.snd ∧ StrayItem d item f) _) fun f => FailsFor.exists_mem_cons
    split
    next hmap =>
      have hsame : ∀ f, ((∃ v, v ∈ listed (item.get? "parameters") ∧ Mislaid d v f) ∨
          ∃ m, m ∈ Method.all ∧ ∃ op, op ∈ described? item m ∧ StrayMethod d item op f) ↔
          StrayItem d item f := by
        intro f
        simp only [StrayItem, hmap, true_and, Method.mem_all]
      refine FailsFor.congr (?_ : FailsFor _ (fun f => _ ∨ _ ∨ _) _) fun f =>
        or_assoc.symm.trans (or_congr_left (hsame f))
      refine FailsFor.checked_bind (failsFor_collect hd _) fun shared hshared => ?_
      subst hshared
      refine FailsFor.checked_bind (failsFor_operationsOfMethods hd hitem path Method.all)
        fun own hown => ?_
      exact hrest.checked_map fun os hos o ho => (List.mem_append.1 ho).elim (hown o) (hos o)
    next hmap =>
      have hnone : ∀ f, ¬ StrayItem d item f := fun f hf => hmap hf.1
      rw [Checked.outcome_bind]
      exact hrest.congr fun f => (or_iff_right (hnone f)).symm

end Extraction

/-- The operations of a document from JSON are read, and their schemas can be written, unless
one of its paths is stray. -/
theorem Document.failsFor_operations (hd : d.root.IsJson) (hpaths : ∀ e, e ∈ d.paths → e.2.IsJson) :
    FailsFor d.operations.outcome
      (fun f => ∃ item, item ∈ d.paths.map Prod.snd ∧ Extraction.StrayItem d item f)
      fun os => ∀ o, o ∈ os → o.Printable := by
  refine FailsFor.congr ((Extraction.failsFor_operationsOfPaths hd hpaths).checked_bind
    fun os hos => ?_) fun f => or_iff_left not_false
  exact .never hos

end TypedClients
