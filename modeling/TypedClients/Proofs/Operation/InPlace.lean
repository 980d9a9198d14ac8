import TypedClients.Proofs.Operation.StrayFields

/-!
# Parameters, bodies and answers in place of references to them

A parameter, a request body or an answer may be a reference to what is kept elsewhere in the
document. What it then counts as is what it refers to; if that is a reference again, this
second reference is not followed, but passed over like any field that nothing reads, and if
there is nothing, the entry counts as null.

A document is rewritten by putting other values where its entries stand
(`Document.rewritten`). Its references still lead to where they led. If each entry stays or is
replaced by what it counts as, the operations are those from before
(`outcome_operations_rewritten`): reading an entry comes to the same up to the reference that
it may hold itself (`same_dereference`), and nothing that is read of a parameter, a body or an
answer depends on that.
-/

namespace TypedClients

/-! ## Steps that come to the same -/

namespace Checked

variable {α β γ δ : Type}

/-- Two steps come to the same, as far as `g` tells. -/
def Same (g : α → γ) (x y : Checked α) : Prop := x.outcome.map g = y.outcome.map g

theorem Same.refl (g : α → γ) (x : Checked α) : Same g x x := rfl

/-- Sequences come to the same if their first steps do, and the rest does for results that `g`
does not tell apart. -/
theorem Same.bind {g : α → γ} {r : β → δ} {x y : Checked α} (h : Same g x y) {k k' : α → Checked β}
    (hrest : ∀ a b, g a = g b → Same r (k a) (k' b)) : Same r (x >>= k) (y >>= k') := by
  unfold Same at h ⊢
  rw [outcome_bind, outcome_bind]
  cases hx : x.outcome with
  | error e =>
    cases hy : y.outcome with
    | error e' =>
      rw [hx, hy] at h
      exact congrArg Except.error (Except.error.inj h)
    | ok b =>
      rw [hx, hy] at h
      cases h
  | ok a =>
    cases hy : y.outcome with
    | error e' =>
      rw [hx, hy] at h
      cases h
    | ok b =>
      rw [hx, hy] at h
      exact hrest a b (Except.ok.inj h)

theorem Same.eq {x y : Checked α} (h : Same id x y) : x.outcome = y.outcome := by
  have hid : ∀ z : Except Failure α, z.map id = z := by
    intro z
    cases z with
    | ok a => rfl
    | error e => rfl
  rw [Same, hid, hid] at h
  exact h

theorem Same.of_eq {g : α → γ} {x y : Checked α} (h : x.outcome = y.outcome) : Same g x y :=
  congrArg (Except.map g) h

theorem same_warn (origin : Origin) (s t : String) : Same id (warn origin s) (warn origin t) := rfl

theorem same_debug (origin : Origin) (s t : String) :
    Same id (debug origin s) (debug origin t) := rfl

end Checked

open Checked (Same)

/-! ## Values without a reference -/

namespace Value

/-- A value without the reference that it is, if it is one. -/
def bare (v : Value) : Value := if v.reference?.isSome then v.replace "$ref" none else v

theorem bare_of_plain {v : Value} (h : v.reference? = none) : v.bare = v := by
  rw [bare, h]
  rfl

@[simp] theorem isMap_bare (v : Value) : v.bare.isMap = v.isMap := by
  rw [bare]
  split
  · exact isMap_replace v _ _
  · rfl

/-- No other field is missing. -/
theorem get?_bare (v : Value) {key : String} (h : key ≠ "$ref") : v.bare.get? key = v.get? key := by
  rw [bare]
  split
  · exact get?_replace_of_ne v h none
  · rfl

theorem reference?_bare (v : Value) : v.bare.reference? = none := by
  rw [bare]
  by_cases href : v.reference?.isSome = true
  · rw [if_pos href, reference?]
    cases hmap : v.isMap with
    | true =>
      rw [get?_replace hmap, if_pos rfl]
      rfl
    | false =>
      rw [get?_eq_none ((isMap_replace v _ _).trans hmap)]
      rfl
  · rw [if_neg href]
    exact Option.not_isSome_iff_eq_none.1 href

/-- A list with its items changed. -/
def mapItems (f : Value → Value) : Value → Value
  | list xs => list (xs.map f)
  | knot id v => knot id (v.mapItems f)
  | v => v

theorem items?_mapItems (f : Value → Value) (v : Value) :
    (v.mapItems f).items? = v.items?.map (List.map f) := by
  induction v using inside_induction with
  | plain v h =>
    cases v with
    | knot id w => exact absurd rfl (h id w)
    | _ => rfl
  | inside id v ih => exact ih

end Value

/-! ## Documents with other entries -/

/-- An operation with other parameters, another request body and other answers. -/
def rewrittenOperation (f : Value → Value) (op : Value) : Value :=
  op.mapFields fun key v =>
    if key.isStr "parameters" then v.mapItems f
    else if key.isStr "requestBody" then f v
    else if key.isStr "responses" then v.mapFields fun _ response => f response
    else v

/-- A path item with other parameters and rewritten operations. -/
def rewrittenItem (f : Value → Value) (item : Value) : Value :=
  item.mapFields fun key v =>
    if key.isStr "parameters" then v.mapItems f
    else if Method.all.any fun m => key.isStr m.word then rewrittenOperation f v
    else v

/-- A document with other entries in its paths. References still lead to where they led. -/
def Document.rewritten (d : Document) (f : Value → Value) : Document :=
  { d with paths := d.paths.map fun e => (e.1, rewrittenItem f e.2) }

namespace Extraction

open Value (bare get?_bare isMap_bare)

variable {d : Document} {f : Value → Value}

/-- The steps in which an operation is read, whichever family describes it. -/
theorem operation_eq (path : String) (m : Method) (op : Value) (ps : List Value) :
    operation d path m op ps = do
      let parsed ← Checked.ofExcept (parameters ps)
      let requestBody ← bodyOf d op ps
      let responses ← responsesFrom d [] (((op.get? "responses").map Value.entries).getD [])
      let texts ← Checked.ofExcept (texts op)
      return {
        path
        method := m
        operationId := texts.operationId
        summary := texts.summary
        description := texts.description
        tags := ((op.list? "tags").getD []).map Value.display
        pathParams := parsed.filter (·.location = .path)
        queryParams := parsed.filter (·.location = .query)
        headerParams := parsed.filter (·.location = .header)
        requestBody
        responses
        deprecated := (op.get? "deprecated").any Value.isGiven } := by
  rw [operation, bodyOf]
  cases d.isSwagger2 with
  | true => rfl
  | false => rfl

/-! ## What is read of an entry -/

theorem isUsable_bare (p : Value) : isUsable p.bare = isUsable p := by
  rw [isUsable, isMap_bare, get?_bare p (by decide), isUsable]

theorem identity_bare (p : Value) : identity p.bare = identity p := by
  rw [identity, get?_bare p (by decide), get?_bare p (by decide), identity]

theorem isIn_bare (place : String) (p : Value) : isIn place p.bare = isIn place p := by
  rw [isIn, get?_bare p (by decide), isIn]

theorem nameOf_bare (p : Value) : nameOf p.bare = nameOf p := by
  rw [nameOf, get?_bare p (by decide), nameOf]

theorem isRequired_bare (p : Value) : isRequired p.bare = isRequired p := by
  rw [isRequired, get?_bare p (by decide), isRequired]

theorem location?_bare (p : Value) : location? p.bare = location? p := by
  rw [location?, get?_bare p (by decide), location?]

theorem parameterSchema_bare (p : Value) : parameterSchema p.bare = parameterSchema p := by
  have hinline : (inlineKeywords.filterMap fun k => (p.bare.get? k).map (Value.str k, ·)) =
      inlineKeywords.filterMap fun k => (p.get? k).map (Value.str k, ·) := by
    refine List.filterMap_congr fun k hk => ?_
    have hne : k ≠ "$ref" := by
      rintro rfl
      revert hk
      decide
    rw [get?_bare p hne]
  rw [parameterSchema, parameterSchema, hinline, Value.has, Value.has, get?_bare p (by decide),
    get?_bare p (by decide)]

theorem parameter_bare (p : Value) (location : Location) :
    parameter p.bare location = parameter p location := by
  rw [parameter, parameter, parameterSchema_bare, nameOf_bare, isRequired_bare,
    get?_bare p (by decide)]

theorem responseSchema_bare (r : Value) : responseSchema d r.bare = responseSchema d r := by
  rw [responseSchema, responseSchema, schemaUnder, schemaUnder, get?_bare r (by decide),
    get?_bare r (by decide)]

/-! ## What is read of a list of parameters -/

theorem merge_bare (shared own : List Value) :
    merge (shared.map bare) (own.map bare) = (merge shared own).map (List.map bare) := by
  have hidentifiable : isIdentifiable ∘ bare = isIdentifiable := by
    funext p
    rw [Function.comp_apply, isIdentifiable, identity_bare, isIdentifiable]
  have hsame : ∀ p q : Value, sameParameter p.bare q.bare = sameParameter p q := by
    intro p q
    rw [sameParameter, identity_bare, identity_bare, sameParameter]
  have hkept : ((fun p => !(own.map bare).any (sameParameter p)) ∘ bare) =
      fun p => !own.any (sameParameter p) := by
    funext p
    rw [Function.comp_apply, List.any_map]
    exact congrArg (fun s => !own.any s) (funext fun q => hsame p q)
  rw [merge, ← List.map_append, List.all_map, hidentifiable, List.filter_map, hkept,
    ← List.map_append, merge]
  split
  · rfl
  · rfl

theorem parameters_bare (ps : List Value) : parameters (ps.map bare) = parameters ps := by
  induction ps with
  | nil => rfl
  | cons p rest ih =>
    rw [List.map_cons, parameters, parameters, location?_bare, ih]
    cases location? p with
    | none => rfl
    | some location =>
      dsimp only
      rw [parameter_bare]

theorem formProperties_bare (done : Ordered Schema) (ps : List Value) :
    formProperties done (ps.map bare) = formProperties done ps := by
  induction ps generalizing done with
  | nil => rfl
  | cons p rest ih =>
    rw [List.map_cons, formProperties, formProperties, parameterSchema_bare, nameOf_bare]
    exact congrArg _ (funext fun s => ih _)

theorem bodyOfParameters_bare (ps : List Value) :
    bodyOfParameters (ps.map bare) = bodyOfParameters ps := by
  have hin : ∀ place, isIn place ∘ bare = isIn place := fun place => funext (isIn_bare place)
  have hrequired : isRequired ∘ bare = isRequired := funext isRequired_bare
  have hname : nameOf ∘ bare = nameOf := funext nameOf_bare
  rw [bodyOfParameters, List.find?_map, hin, bodyOfParameters]
  cases ps.find? (isIn "body") with
  | some body =>
    dsimp only [Option.map_some]
    rw [get?_bare body (by decide)]
  | none =>
    dsimp only [Option.map_none]
    rw [List.filter_map, hin, List.isEmpty_map, formProperties_bare, List.filter_map, hrequired,
      List.map_map, hname]

/-! ## What is rewritten -/

theorem get?_rewrittenOperation (op : Value) {key : String} (h₁ : key ≠ "parameters")
    (h₂ : key ≠ "requestBody") (h₃ : key ≠ "responses") :
    (rewrittenOperation f op).get? key = op.get? key := by
  have hkey : ∀ other, key ≠ other → (Value.str key).isStr other = false :=
    fun other hne => decide_eq_false hne
  rw [rewrittenOperation, Value.get?_mapFields, hkey _ h₁, hkey _ h₂, hkey _ h₃]
  cases op.get? key with
  | none => rfl
  | some v => rfl

theorem parameters_rewrittenOperation (op : Value) : (rewrittenOperation f op).get? "parameters" =
    (op.get? "parameters").map (Value.mapItems f) := Value.get?_mapFields _ op "parameters"

theorem requestBody_rewrittenOperation (op : Value) :
    (rewrittenOperation f op).get? "requestBody" = (op.get? "requestBody").map f :=
  Value.get?_mapFields _ op "requestBody"

/-- The answers of a rewritten operation, each under its code. -/
theorem answers_rewrittenOperation (op : Value) :
    (((rewrittenOperation f op).get? "responses").map Value.entries).getD [] =
      (((op.get? "responses").map Value.entries).getD []).map fun e => (e.1, f e.2) := by
  have hget : (rewrittenOperation f op).get? "responses" =
      (op.get? "responses").map (·.mapFields fun _ response => f response) :=
    Value.get?_mapFields _ op "responses"
  rw [hget]
  cases op.get? "responses" with
  | none => rfl
  | some r => exact Value.entries_mapFields _ r

theorem texts_rewrittenOperation (op : Value) : texts (rewrittenOperation f op) = texts op := by
  rw [texts, texts]
  dsimp only
  rw [get?_rewrittenOperation op (by decide) (by decide) (by decide),
    get?_rewrittenOperation op (by decide) (by decide) (by decide),
    get?_rewrittenOperation op (by decide) (by decide) (by decide)]

theorem parameters_rewrittenItem (item : Value) : (rewrittenItem f item).get? "parameters" =
    (item.get? "parameters").map (Value.mapItems f) := Value.get?_mapFields _ item "parameters"

theorem get?_rewrittenItem (item : Value) (m : Method) :
    (rewrittenItem f item).get? m.word = (item.get? m.word).map (rewrittenOperation f) := by
  have hword : (Value.str m.word).isStr "parameters" = false := by
    cases m <;> decide
  have hmethod : (Method.all.any fun m' => (Value.str m.word).isStr m'.word) = true :=
    List.any_eq_true.2 ⟨m, m.mem_all, decide_eq_true rfl⟩
  rw [rewrittenItem, Value.get?_mapFields, hword, hmethod]
  rfl

/-! ## What an entry counts as -/

/-- What an entry counts as: itself, or what it refers to if it is a reference, without the
reference that this may be again, and null if that is not there. A reference that trips stays
what it is, since nothing is read then. -/
def countsAs (d : Document) (v : Value) : Value :=
  match v.reference? with
  | none => v
  | some ref =>
    match Pointer.resolve d.root ref with
    | .ok w => w.bare
    | .error (.refused _) => .null
    | .error _ => v

/-- An entry is read like what it counts as. -/
theorem same_dereference {v v' : Value} (h : v' = v ∨ v' = countsAs d v) :
    Same bare (dereference (d.rewritten f) v') (dereference d v) := by
  have hroot : dereference (d.rewritten f) = dereference d := rfl
  rw [hroot]
  rcases h with rfl | rfl
  · exact .refl bare _
  · rw [countsAs]
    cases href : v.reference? with
    | none => exact .refl bare _
    | some ref =>
      dsimp only
      cases hresolve : Pointer.resolve d.root ref with
      | ok w =>
        have hread : dereference d v = pure w := by
          unfold dereference
          simp only [href, hresolve]
        rw [hread]
        dsimp only
        rw [Migration.dereference_of_inline w.reference?_bare]
        exact congrArg Except.ok (Value.bare_of_plain w.reference?_bare)
      | error e =>
        cases e with
        | refused cause =>
          have hread : (dereference d v).outcome = .ok .null := by
            unfold dereference
            simp only [href, hresolve]
            rfl
          exact .of_eq hread.symm
        | _ => exact .refl bare _

variable (hf : ∀ v, f v = v ∨ f v = countsAs d v)

include hf

/-- A list of parameters is read like one of what they count as. -/
theorem same_collectItems (vs : List Value) :
    Same (List.map bare) (collectItems (d.rewritten f) (vs.map f)) (collectItems d vs) := by
  induction vs with
  | nil => exact .refl _ _
  | cons v rest ih =>
    rw [List.map_cons, collectItems, collectItems]
    refine (same_dereference (hf v)).bind fun p q hpq => ?_
    have husable : isUsable p = isUsable q := by
      rw [← isUsable_bare p, hpq, isUsable_bare]
    rw [husable]
    split
    · refine ih.bind fun ps qs hrest => ?_
      exact congrArg Except.ok (List.cons_eq_cons.2 ⟨hpq, hrest⟩)
    · -- the warnings may differ, but nothing is read of them
      exact (Checked.same_warn _ _ _).bind fun _ _ _ => ih

theorem same_collect (list : Option Value) :
    Same (List.map bare) (collect (d.rewritten f) (list.map (Value.mapItems f)))
    (collect d list) := by
  have hitems : (list.map (Value.mapItems f)).bind Value.items? =
      (list.bind Value.items?).map (List.map f) := by
    cases list with
    | none => rfl
    | some v => exact Value.items?_mapItems f v
  rw [collect, hitems, collect]
  cases list.bind Value.items? with
  | none => exact .refl _ _
  | some vs => exact same_collectItems hf vs

/-- A request body is read like what it counts as. -/
theorem same_bodyOfRequest (request : Option Value) :
    Same id (bodyOfRequest (d.rewritten f) (request.map f)) (bodyOfRequest d request) := by
  rw [bodyOfRequest, bodyOfRequest]
  cases request with
  | none => exact .refl _ _
  | some v =>
    refine (same_dereference (hf v)).bind fun p q hpq => .of_eq ?_
    rw [← get?_bare p (by decide), hpq, get?_bare q (by decide)]

/-- Answers are read like what they count as. -/
theorem same_responsesFrom (es : List (Value × Value)) (done : Ordered Schema) :
    Same id (responsesFrom (d.rewritten f) done (es.map fun e => (e.1, f e.2)))
      (responsesFrom d done es) := by
  induction es generalizing done with
  | nil => exact .refl _ _
  | cons e rest ih =>
    obtain ⟨status, response⟩ := e
    rw [List.map_cons, responsesFrom, responsesFrom]
    refine (same_dereference (hf response)).bind fun p q hpq => ?_
    have hschema : responseSchema (d.rewritten f) p = responseSchema d q := by
      have hfamily : responseSchema (d.rewritten f) = responseSchema d := rfl
      rw [hfamily, ← responseSchema_bare p, hpq, responseSchema_bare]
    rw [hschema]
    refine (Same.refl id _).bind fun s s' hs => ?_
    obtain rfl : s = s' := hs
    cases s with
    | none => exact ih done
    | some s => exact ih _

/-! ## Operations -/

/-- An operation is read as before from parameters that are told apart by their references
alone. -/
theorem same_operation (path : String) (m : Method) (op : Value) {ps qs : List Value}
    (hps : ps.map Value.bare = qs.map Value.bare) :
    Same id (operation (d.rewritten f) path m (rewrittenOperation f op) ps)
      (operation d path m op qs) := by
  have hparameters : parameters ps = parameters qs := by
    rw [← parameters_bare ps, hps, parameters_bare]
  have hbody : bodyOfParameters ps = bodyOfParameters qs := by
    rw [← bodyOfParameters_bare ps, hps, bodyOfParameters_bare]
  have htags : (rewrittenOperation f op).list? "tags" = op.list? "tags" := by
    rw [Value.list?, get?_rewrittenOperation op (by decide) (by decide) (by decide), Value.list?]
  have hdeprecated : (rewrittenOperation f op).get? "deprecated" = op.get? "deprecated" :=
    get?_rewrittenOperation op (by decide) (by decide) (by decide)
  have hrequest : Same id (bodyOf (d.rewritten f) (rewrittenOperation f op) ps)
    (bodyOf d op qs) := by
    have hfamily : (d.rewritten f).isSwagger2 = d.isSwagger2 := rfl
    rw [bodyOf, bodyOf, hfamily, hbody, requestBody_rewrittenOperation]
    split
    · exact .refl _ _
    · exact same_bodyOfRequest hf _
  rw [operation_eq, operation_eq, hparameters, answers_rewrittenOperation,
    texts_rewrittenOperation, htags, hdeprecated]
  refine (Same.refl id _).bind fun parsed parsed' h => ?_
  obtain rfl : parsed = parsed' := h
  refine hrequest.bind fun body body' h => ?_
  obtain rfl : body = body' := h
  refine (same_responsesFrom hf _ _).bind fun answers answers' h => ?_
  obtain rfl : answers = answers' := h
  exact .refl _ _

/-- So are the operations of a path. -/
theorem same_operationsOfMethods (path : String) (item : Value) {shared shared' : List Value}
    (hshared : shared'.map Value.bare = shared.map Value.bare) (ms : List Method) :
    Same id (operationsOfMethods (d.rewritten f) path (rewrittenItem f item) shared' ms)
      (operationsOfMethods d path item shared ms) := by
  induction ms with
  | nil => exact .refl _ _
  | cons m rest ih =>
    have hfilter : ((item.get? m.word).map (rewrittenOperation f)).filter Value.isMap =
        ((item.get? m.word).filter Value.isMap).map (rewrittenOperation f) := by
      rw [Option.filter_map]
      exact congrArg (fun p => ((item.get? m.word).filter p).map _)
        (funext fun op => Value.isMap_mapFields _ op)
    rw [operationsOfMethods, operationsOfMethods, get?_rewrittenItem, hfilter]
    cases (item.get? m.word).filter Value.isMap with
    | none => exact ih
    | some op =>
      dsimp only [Option.map_some]
      rw [parameters_rewrittenOperation]
      refine (same_collect hf _).bind fun own' own hown => ?_
      have hmerge : Same (List.map Value.bare) (Checked.ofExcept (merge shared' own'))
          (Checked.ofExcept (merge shared own)) := by
        unfold Same
        rw [Checked.outcome_ofExcept, Checked.outcome_ofExcept, ← merge_bare, hshared,
          hown, merge_bare]
      refine hmerge.bind fun ps qs hps => ?_
      refine (same_operation hf path m op hps).bind fun o o' ho => ?_
      obtain rfl : o = o' := ho
      refine ih.bind fun os os' hos => ?_
      obtain rfl : os = os' := hos
      exact .refl _ _

/-- So are the operations of some paths. -/
theorem same_operationsOfPaths (paths : List (String × Value)) :
    Same id (operationsOfPaths (d.rewritten f) (paths.map fun e => (e.1, rewrittenItem f e.2)))
      (operationsOfPaths d paths) := by
  induction paths with
  | nil => exact .refl _ _
  | cons e rest ih =>
    obtain ⟨path, item⟩ := e
    have hmap : (rewrittenItem f item).isMap = item.isMap := Value.isMap_mapFields _ item
    rw [List.map_cons, operationsOfPaths, operationsOfPaths, hmap]
    split
    · rw [parameters_rewrittenItem]
      refine (same_collect hf _).bind fun shared' shared hshared => ?_
      refine (same_operationsOfMethods hf path item hshared Method.all).bind fun os os' hos => ?_
      obtain rfl : os = os' := hos
      refine ih.bind fun others others' h => ?_
      obtain rfl : others = others' := h
      exact .refl _ _
    · exact (Checked.same_warn _ _ _).bind fun _ _ _ => ih

/-- Operations are read as if each entry stood where it is referred to. -/
theorem outcome_operations_rewritten :
    (d.rewritten f).operations.outcome = d.operations.outcome := by
  have hsame : Same id (d.rewritten f).operations d.operations := by
    rw [Document.operations, Document.operations]
    refine (same_operationsOfPaths hf d.paths).bind fun os os' hos => ?_
    obtain rfl : os = os' := hos
    exact (Checked.same_debug _ _ _).bind fun _ _ _ => .refl _ _
  exact hsame.eq

end Extraction

end TypedClients
