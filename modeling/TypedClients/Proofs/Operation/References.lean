import TypedClients.Proofs.Operation.InPlace

/-!
# References among parameters, bodies and answers, and what is said of them

An entry of a path may refer to what is kept elsewhere, and that to something else again. A
chain of references ends at a value that is none (`Leads`). Of a chain of one reference the
end is taken for the entry. A longer one is given up after its first reference, whose end then
counts without the second one.

A reference that leads nowhere is reported, and so is a parameter that cannot be used. Nothing
else is (`pathNotices`): a body or an answer that refers to a further reference, or to a value
that is no object, is lost without a word.

* `operations_of_references`: what the operations of a document are read from, and what is
  reported.
-/

namespace TypedClients

namespace Checked

variable {α β : Type}

/-- Unless it fails, a step leaves these notices. -/
def Writes (x : Checked α) (notices : List Notice) : Prop :=
  ∀ a, x.outcome = .ok a → x.log = notices

theorem writes_pure (a : α) : Writes (pure a) [] := fun _ _ => rfl

theorem writes_ofExcept (x : Except Failure α) : Writes (ofExcept x) [] := fun _ _ => rfl

theorem writes_warn (origin : Origin) (text : String) :
    Writes (warn origin text) [⟨.warning, origin, text⟩] :=
  fun _ _ => rfl

/-- A sequence leaves the notices of its parts. -/
theorem Writes.bind {x : Checked α} {ns ms : List Notice} (h : Writes x ns) {k : α → Checked β}
    (hrest : ∀ a, x.outcome = .ok a → Writes (k a) ms) : Writes (x >>= k) (ns ++ ms) := by
  intro b hb
  obtain ⟨a, ha, hk⟩ := outcome_bind_eq_ok.1 hb
  rw [log_bind ha, h a ha, hrest a ha b hk]

/-- A last step that leaves none adds nothing. -/
theorem Writes.bind_silent {x : Checked α} {ns : List Notice} (h : Writes x ns) {k : α → Checked β}
    (hrest : ∀ a, Writes (k a) []) : Writes (x >>= k) ns := by
  have hall := h.bind fun a _ => hrest a
  rw [List.append_nil] at hall
  exact hall

end Checked

open Checked (Writes writes_ofExcept writes_pure writes_warn)

namespace Extraction

variable {d : Document} {v w : Value}

/-! ## Chains of references -/

/-- A value is a chain of references to another one, which is none. -/
inductive Leads (d : Document) : Value → Value → Prop
  | ends {w : Value} (h : w.reference? = none) : Leads d w w
  | refers {u v w : Value} {ref : String} (href : v.reference? = some ref)
    (hresolve : Pointer.resolve d.root ref = .ok u) (h : Leads d u w) : Leads d v w

/-- The end of a chain of at most one reference is what the entry counts as. -/
theorem countsAs_of_leads (h : Leads d v w) (hone : (target d v).reference? = none) :
    countsAs d v = w := by
  cases h with
  | ends hw =>
    rw [countsAs, hw]
  | refers href hresolve hrest =>
    rw [target, href] at hone
    dsimp only at hone
    rw [hresolve] at hone
    rw [countsAs, href]
    dsimp only
    rw [hresolve]
    cases hrest with
    | ends hw => exact Value.bare_of_plain hw
    | refers href' =>
      have hsome := href'.symm.trans hone
      cases hsome

/-! ## What is reported -/

/-- The notice of a reference that leads nowhere. -/
def refusal (d : Document) (v : Value) : List Notice :=
  match v.reference? with
  | none => []
  | some ref =>
    match Pointer.resolve d.root ref with
    | .error (.refused cause) => [⟨.warning, .extraction, cause.message ++ "; ignoring it"⟩]
    | _ => []

/-- The notices of a parameter: of its reference, and that it cannot be used. -/
def parameterNotices (d : Document) (v : Value) : List Notice :=
  refusal d v ++ if isUsable (target d v) then []
    else [⟨.warning, .extraction, "Skipping parameter without a name: " ++ (target d v).inner⟩]

/-- The notices of an operation. Of a body and of answers only references that lead nowhere
have one. -/
def operationNotices (d : Document) (op : Value) : List Notice :=
  (listed (op.get? "parameters")).flatMap (parameterNotices d) ++
    (bodyReferences d op ++ answers op).flatMap (refusal d)

/-- The notices of a path. -/
def pathNotices (d : Document) (path : String) (item : Value) : List Notice :=
  if item.isMap then
    (listed (item.get? "parameters")).flatMap (parameterNotices d) ++
      Method.all.flatMap fun m =>
        ((item.get? m.word).filter Value.isMap).toList.flatMap (operationNotices d)
  else [⟨.warning, .extraction, "Skipping path " ++ path ++ ": path item is not an object"⟩]

theorem writes_dereference (v : Value) : Writes (dereference d v) (refusal d v) := by
  rw [dereference, refusal]
  cases v.reference? with
  | none => exact writes_pure v
  | some ref =>
    dsimp only
    cases Pointer.resolve d.root ref with
    | ok w => exact writes_pure w
    | error f =>
      cases f with
      | refused cause => exact (writes_warn _ _).bind_silent fun _ => writes_pure _
      | _ =>
        intro a ha
        cases ha

theorem outcome_dereference (h : (dereference d v).outcome = .ok w) : w = target d v := by
  rw [dereference] at h
  rw [target]
  cases href : v.reference? with
  | none =>
    rw [href] at h
    exact (Except.ok.inj h).symm
  | some ref =>
    rw [href] at h
    dsimp only at h ⊢
    cases hresolve : Pointer.resolve d.root ref with
    | ok u =>
      rw [hresolve] at h
      exact (Except.ok.inj h).symm
    | error f =>
      rw [hresolve] at h
      cases f with
      | refused cause => exact (Except.ok.inj h).symm
      | _ => cases h

theorem writes_collectItems (vs : List Value) :
    Writes (collectItems d vs) (vs.flatMap (parameterNotices d)) := by
  induction vs with
  | nil => exact writes_pure []
  | cons v rest ih =>
    rw [collectItems, List.flatMap_cons, parameterNotices, List.append_assoc]
    refine (writes_dereference v).bind fun p hp => ?_
    obtain rfl := outcome_dereference hp
    split
    · exact ih.bind_silent fun _ => writes_pure _
    · exact (writes_warn _ _).bind fun _ _ => ih

theorem writes_collect (list : Option Value) :
    Writes (collect d list) ((listed list).flatMap (parameterNotices d)) := by
  rw [collect, listed]
  cases list.bind Value.items? with
  | none => exact writes_pure []
  | some items => exact writes_collectItems items

theorem writes_bodyOf (op : Value) (ps : List Value) :
    Writes (bodyOf d op ps) ((bodyReferences d op).flatMap (refusal d)) := by
  rw [bodyOf, bodyReferences]
  split
  · exact writes_ofExcept _
  · rw [bodyOfRequest, List.flatMap_singleton]
    exact (writes_dereference _).bind_silent fun _ => writes_ofExcept _

theorem writes_responsesFrom (es : List (Value × Value)) (done : Ordered Schema) :
    Writes (responsesFrom d done es) ((es.map Prod.snd).flatMap (refusal d)) := by
  induction es generalizing done with
  | nil => exact writes_pure done
  | cons e rest ih =>
    obtain ⟨status, response⟩ := e
    rw [responsesFrom, List.map_cons, List.flatMap_cons]
    refine (writes_dereference response).bind fun r _ => ?_
    refine (writes_ofExcept _).bind fun s _ => ?_
    cases s with
    | none => exact ih done
    | some s => exact ih _

theorem writes_operation (path : String) (m : Method) (op : Value) (ps : List Value) :
    Writes (operation d path m op ps)
    ((bodyReferences d op ++ answers op).flatMap (refusal d)) := by
  rw [operation_eq, List.flatMap_append]
  refine (writes_ofExcept _).bind fun parsed _ => ?_
  refine (writes_bodyOf op ps).bind fun body _ => ?_
  refine (writes_responsesFrom _ _).bind_silent fun answers => ?_
  exact (writes_ofExcept _).bind_silent fun texts => writes_pure _

theorem writes_operationsOfMethods (path : String) (item : Value) (shared : List Value)
    (ms : List Method) :
    Writes (operationsOfMethods d path item shared ms)
      (ms.flatMap fun m => ((item.get? m.word).filter Value.isMap).toList.flatMap
        (operationNotices d)) := by
  induction ms with
  | nil => exact writes_pure []
  | cons m rest ih =>
    rw [operationsOfMethods, List.flatMap_cons]
    cases (item.get? m.word).filter Value.isMap with
    | none => exact ih
    | some op =>
      rw [Option.toList_some, List.flatMap_singleton, operationNotices, List.append_assoc]
      refine (writes_collect _).bind fun own _ => ?_
      refine (writes_ofExcept (merge shared own)).bind fun ps _ => ?_
      refine (writes_operation path m op ps).bind fun o _ => ?_
      exact ih.bind_silent fun _ => writes_pure _

/-- Each path leaves its notices, one path after the other. -/
theorem writes_operationsOfPaths (paths : List (String × Value)) :
    Writes (operationsOfPaths d paths) (paths.flatMap fun e => pathNotices d e.1 e.2) := by
  induction paths with
  | nil => exact writes_pure []
  | cons e rest ih =>
    obtain ⟨path, item⟩ := e
    rw [operationsOfPaths, List.flatMap_cons, pathNotices]
    split
    · rw [List.append_assoc]
      refine (writes_collect _).bind fun shared _ => ?_
      refine (writes_operationsOfMethods path item shared Method.all).bind fun os _ => ?_
      exact ih.bind_silent fun _ => writes_pure _
    · exact (writes_warn _ _).bind fun _ _ => ih

/-! ## Documents -/

/-- What is reported about the operations of a document in the end. -/
def summary (d : Document) (os : List Operation) : Notice :=
  ⟨.debug, .extraction, "Extracted " ++ Number.natText os.length ++ " operations from " ++
    Number.natText d.paths.length ++ " paths"⟩

/-- An entry counts as the end of its chain, if that is of at most one reference. Operations
are read as if any of the entries were replaced by what they count as; and the notices are
those of references that lead nowhere, of parameters that cannot be used, and of paths without
operations. -/
theorem operations_of_references (d : Document) :
    (∀ v w, Leads d v w → (target d v).reference? = none → countsAs d v = w) ∧
    (∀ f : Value → Value, (∀ v, f v = v ∨ f v = countsAs d v) →
      (d.rewritten f).operations.outcome = d.operations.outcome) ∧
    ∀ os, d.operations.outcome = .ok os →
      d.operations.log = (d.paths.flatMap fun e => pathNotices d e.1 e.2) ++ [summary d os] := by
  refine ⟨fun v w => countsAs_of_leads, fun f hf => outcome_operations_rewritten hf,
    fun os hos => ?_⟩
  obtain ⟨os', hpaths, hrest⟩ := Checked.outcome_bind_eq_ok.1 hos
  have hlog : d.operations.log = (operationsOfPaths d d.paths).log ++ [summary d os'] :=
    Checked.log_bind hpaths _
  obtain rfl : os' = os := Except.ok.inj hrest
  rw [hlog, writes_operationsOfPaths d.paths os' hpaths]

/-- A reference to what is kept elsewhere. -/
def entry (ref : String) : Value := .map [(.str "$ref", .str ref)]

/-- A document with one operation, which refers to its parameter, to its body, and to an
answer that is not there; the body of notes is that of visits. -/
def visits : Value :=
  .map [
    (.str "openapi", .str "3.0.0"),
    (.str "paths", .map [
      (.str "/visits", .map [
        (.str "post", .map [
          (.str "parameters", .list [entry "#/components/parameters/Day"]),
          (.str "requestBody", entry "#/components/requestBodies/Note"),
          (.str "responses", .map [(.str "201", entry "#/components/responses/Visit")])])])]),
    (.str "components", .map [
      (.str "parameters", .map [
        (.str "Day", .map [(.str "in", .str "query"), (.str "name", .str "day")])]),
      (.str "requestBodies", .map [
        (.str "Note", entry "#/components/requestBodies/Visit"),
        (.str "Visit", .map [
          (.str "content", .map [
            (.str "application/json", .map [
              (.str "schema", .map [(.str "type", .str "string")])])])])])])]

theorem operations_of_references_visits :
    ∃ d os day, Document.ofValue visits = .ok d ∧ d.operations.outcome = .ok os ∧
      day.isMap = true ∧ Leads d (entry "#/components/parameters/Day") day ∧
      countsAs d (entry "#/components/parameters/Day") = day ∧
      (d.rewritten (countsAs d)).operations.outcome = .ok os ∧
      d.operations.log =
        [⟨.warning, .extraction,
          "Cannot resolve $ref '#/components/responses/Visit'; ignoring it"⟩, summary d os] := by
  have hrun : ((Document.ofValue visits).toOption.any fun d =>
      d.operations.outcome.toOption.isSome &&
        ((Pointer.resolve d.root "#/components/parameters/Day").toOption.any fun day =>
          day.isMap && day.reference?.isNone) &&
        decide ((d.paths.flatMap fun e => pathNotices d e.1 e.2) =
          [⟨.warning, .extraction,
            "Cannot resolve $ref '#/components/responses/Visit'; ignoring it"⟩])) = true := by
    decide +kernel
  obtain ⟨d, hd, hrun⟩ := (Option.any_eq_true _ _).1 hrun
  obtain ⟨hrun, hnotices⟩ := (Bool.and_eq_true _ _).mp hrun
  obtain ⟨hsome, hday⟩ := (Bool.and_eq_true _ _).mp hrun
  obtain ⟨os, hos⟩ := Failure.exists_eq_ok hsome
  obtain ⟨day, hresolve, hday⟩ := (Option.any_eq_true _ _).1 hday
  obtain ⟨hmap, hends⟩ := (Bool.and_eq_true _ _).mp hday
  have hresolve := Failure.eq_ok_of_toOption hresolve
  have hends := Option.isNone_iff_eq_none.1 hends
  have hentry : (entry "#/components/parameters/Day").reference? =
      some "#/components/parameters/Day" := rfl
  have hleads : Leads d (entry "#/components/parameters/Day") day :=
    .refers hentry hresolve (.ends hends)
  have hone : (target d (entry "#/components/parameters/Day")).reference? = none := by
    rw [target, hentry]
    dsimp only
    rw [hresolve]
    exact hends
  have hlog := (operations_of_references d).2.2 os hos
  rw [of_decide_eq_true hnotices] at hlog
  refine ⟨d, os, day, Failure.eq_ok_of_toOption hd, hos, hmap, hleads,
    (operations_of_references d).1 _ _ hleads hone, ?_, hlog⟩
  rw [(operations_of_references d).2.1 (countsAs d) fun v => Or.inr rfl, hos]

/-- The body of the operation is two references away. It is not read and nothing is said of
it, and it would be read if it stood in its place. -/
theorem chain_loses_body :
    ∃ d body, Document.ofValue visits = .ok d ∧
      Leads d (entry "#/components/requestBodies/Note") body ∧ body.isMap = true ∧
      (∃ o, d.operations.outcome = .ok [o] ∧ o.requestBody.isNone = true) ∧
      (d.operations.log.filter (·.level = .warning)).map Notice.text =
        ["Cannot resolve $ref '#/components/responses/Visit'; ignoring it"] ∧
      ∃ o, (d.rewritten fun v =>
          if v.reference? = some "#/components/requestBodies/Note" then body
            else v).operations.outcome =
        .ok [o] ∧ o.requestBody.isSome = true := by
  have hsingle : ∀ (x : Except Failure (List Operation)) (p : Operation → Bool),
      (x.toOption.any fun os => os.length == 1 && os.all p) = true → ∃ o, x = .ok [o] ∧
      p o = true := by
    intro x p h
    obtain ⟨os, hos, h⟩ := (Option.any_eq_true _ _).1 h
    obtain ⟨hlength, hall⟩ := (Bool.and_eq_true _ _).mp h
    obtain ⟨o, rfl⟩ := List.length_eq_one_iff.1 (beq_iff_eq.1 hlength)
    exact ⟨o, Failure.eq_ok_of_toOption hos, List.all_eq_true.1 hall o List.mem_cons_self⟩
  have hrun : ((Document.ofValue visits).toOption.any fun d =>
      (Pointer.resolve d.root "#/components/requestBodies/Note").toOption.any fun note =>
        decide (note.reference? = some "#/components/requestBodies/Visit") &&
        (Pointer.resolve d.root "#/components/requestBodies/Visit").toOption.any fun body =>
          body.isMap && (body.reference?.isNone &&
          ((d.operations.outcome.toOption.any fun os => os.length == 1 &&
            os.all fun o => o.requestBody.isNone) &&
          (decide ((d.operations.log.filter (·.level = .warning)).map Notice.text =
            ["Cannot resolve $ref '#/components/responses/Visit'; ignoring it"]) &&
          (d.rewritten fun v => if v.reference? = some "#/components/requestBodies/Note" then body
            else v).operations.outcome.toOption.any fun os => os.length == 1 &&
              os.all fun o => o.requestBody.isSome)))) = true := by
    decide +kernel
  obtain ⟨d, hd, hrun⟩ := (Option.any_eq_true _ _).1 hrun
  obtain ⟨note, hnote, hrun⟩ := (Option.any_eq_true _ _).1 hrun
  obtain ⟨hfurther, hrun⟩ := (Bool.and_eq_true _ _).mp hrun
  obtain ⟨body, hbody, hrun⟩ := (Option.any_eq_true _ _).1 hrun
  obtain ⟨hmap, hrun⟩ := (Bool.and_eq_true _ _).mp hrun
  obtain ⟨hends, hrun⟩ := (Bool.and_eq_true _ _).mp hrun
  obtain ⟨hlost, hrun⟩ := (Bool.and_eq_true _ _).mp hrun
  obtain ⟨hwarnings, hwritten⟩ := (Bool.and_eq_true _ _).mp hrun
  have hleads : Leads d (entry "#/components/requestBodies/Note") body :=
    .refers rfl (Failure.eq_ok_of_toOption hnote)
      (.refers (of_decide_eq_true hfurther) (Failure.eq_ok_of_toOption hbody)
        (.ends (Option.isNone_iff_eq_none.1 hends)))
  exact ⟨d, body, Failure.eq_ok_of_toOption hd, hleads, hmap, hsingle _ _ hlost,
    of_decide_eq_true hwarnings, hsingle _ _ hwritten⟩

end Extraction

end TypedClients
