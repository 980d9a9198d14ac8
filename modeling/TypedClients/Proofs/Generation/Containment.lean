import TypedClients.Proofs.Generation.Writable
import TypedClients.Proofs.Migration.Documents
import TypedClients.Proofs.Operation.Keys

/-!
# What a document from JSON trips over

A document that is not of the required shape is refused, and so is one whose schemas lie too
deep inside one another. The fields of a document are meant to be harmless beyond that,
whatever they hold, and most of them are. `Stray` lists the ones that are not: the scheme of a
base URL, the format of a scalar, a reference that trips, the name and the place of a
parameter, its description, and the texts of an operation.

* `contained_unless_stray`: reading a document from JSON and generating from it returns if
  nothing in it is stray, unless it is refused, and otherwise fails for something stray.
-/

namespace TypedClients

open Value (IsJson str map list)
open Schema (Unread)

variable {root : Value}

/-! ## Reading a document -/

namespace Document

/-- What the schemes of a document cannot be asked for their first one for: they are no list
and no text. -/
def Unlisted (v : Value) (f : Failure) : Prop :=
  v.items? = none ∧ v.str? = none ∧ f = .mishap (if v.isMap then .missingKey else .wrongType)

theorem failsFor_firstScheme {v : Value} (h : v.IsJson) (hgiven : v.isGiven = true) :
    FailsFor (firstScheme v) (Unlisted v) fun _ => True := by
  cases h with
  | null => exact absurd hgiven Bool.false_ne_true
  | bool b => exact .of_error ⟨rfl, rfl, rfl⟩
  | int hlimit => exact .of_error ⟨rfl, rfl, rfl⟩
  | float x => exact .of_error ⟨rfl, rfl, rfl⟩
  | str s =>
    rw [firstScheme]
    cases hs : s.toList with
    | nil =>
      rw [String.toList_eq_nil_iff] at hs
      subst hs
      exact absurd hgiven Bool.false_ne_true
    | cons c rest => exact .of_ok trivial fun f hf => (nomatch hf.2.1)
  | @list vs items =>
    cases vs with
    | nil => exact absurd hgiven Bool.false_ne_true
    | cons v rest => exact .of_ok trivial fun f hf => (nomatch hf.1)
  | @map es keys values =>
    -- a map is asked for the entry under zero, and in JSON all keys are texts
    have hnone : (es.find? fun e => e.1.same (.int 0)) = none := by
      refine List.find?_eq_none.2 fun e he => ?_
      obtain ⟨s, hs⟩ := keys e he
      rw [hs]
      exact Bool.false_ne_true
    rw [firstScheme, hnone]
    exact .of_error ⟨rfl, rfl, rfl⟩

/-- What the base URL of a document of a family is not found for: there is a host, and there
are schemes without a first one. -/
def StrayScheme (root : Value) (family : Family) (f : Failure) : Prop :=
  family = .swagger2 ∧ (given? root "host").isSome ∧ ∃ v, given? root "schemes" =
    some v ∧ Unlisted v f

theorem failsFor_baseUrlOf (h : root.IsJson) (family : Family) :
    FailsFor (baseUrlOf root family) (StrayScheme root family) fun _ => True := by
  cases family with
  | openapi3 =>
    have hnone : ∀ f, ¬ StrayScheme root .openapi3 f := by
      rintro f ⟨hf, -⟩
      cases hf
    rw [baseUrlOf]
    split
    · split
      · exact .of_ok trivial hnone
      · exact .of_ok trivial hnone
    · exact .of_ok trivial hnone
  | swagger2 =>
    rw [baseUrlOf]
    cases hhost : given? root "host" with
    | none =>
      refine .of_ok trivial fun f hf => ?_
      rw [StrayScheme, hhost] at hf
      exact Bool.false_ne_true hf.2.1
    | some host =>
      have hsame : ∀ f, (∃ v, given? root "schemes" = some v ∧ Unlisted v f) ↔
          StrayScheme root .swagger2 f := by
        intro f
        rw [StrayScheme, hhost]
        exact ⟨fun hf => ⟨rfl, rfl, hf⟩, fun hf => hf.2.2⟩
      refine FailsFor.congr ?_ hsame
      cases hschemes : given? root "schemes" with
      | none =>
        refine .of_ok trivial fun f hf => ?_
        obtain ⟨v, hv, -⟩ := hf
        exact Option.not_mem_none v hv
      | some v =>
        obtain ⟨hv, hgiven⟩ := Option.filter_eq_some_iff.1 hschemes
        refine FailsFor.congr ((failsFor_firstScheme (h.get? hv) hgiven).map fun _ _ => trivial)
          fun f => ?_
        simp only [Option.some.injEq, exists_eq_left']

/-- A document whose parts come from JSON. -/
structure IsJson (d : Document) : Prop where
  root : d.root.IsJson
  paths : ∀ e, e ∈ d.paths → e.2.IsJson
  definitions : ∀ e, e ∈ d.definitions → e.2.IsJson

theorem refused_of_family {f : Failure} (hmap : root.isMap = true)
    (h : Family.ofValue root = .error f) :
    ∃ cause, f = .refused cause := by
  rw [Family.ofValue, hmap, if_neg (by decide)] at h
  dsimp only at h
  split at h
  · cases h
  · split at h
    · cases h
    · split at h
      · exact ⟨_, (Except.error.inj h).symm⟩
      · exact ⟨_, (Except.error.inj h).symm⟩

/-- A table is refused for one cause only. -/
theorem refused_of_table {cause : Cause} {v : Option Value} {f : Failure}
    (h : table cause v = .error f) : f = .refused cause := by
  rw [table] at h
  split at h
  · cases h
  · next w _ =>
    cases hes : w.entries? with
    | none =>
      rw [hes] at h
      exact (Except.error.inj h).symm
    | some es =>
      rw [hes] at h
      cases h

/-- The table of a JSON object has texts as keys and JSON values under them. -/
theorem isJson_table {cause : Cause} {v : Option Value} {es : List (Value × Value)}
    (h : ∀ w, v = some w → w.IsJson) (hes : table cause v = .ok es) :
    ∀ e, e ∈ es → (∃ s, e.1 = str s) ∧ e.2.IsJson := by
  rw [table] at hes
  split at hes
  · cases hes
    exact fun e he => absurd he List.not_mem_nil
  next w hw =>
    have hjson := h w (Option.filter_eq_some_iff.1 hw).1
    cases hentries : w.entries? with
    | none =>
      rw [hentries] at hes
      cases hes
    | some entries =>
      rw [hentries] at hes
      cases hes
      exact fun e he => hjson.entries? hentries he

theorem isJson_definitionsOf (h : root.IsJson) (family : Family) :
    ∀ w, definitionsOf root family = some w → w.IsJson := by
  intro w hw
  cases family with
  | swagger2 => exact h.get? hw
  | openapi3 =>
    obtain ⟨components, hcomponents, hw⟩ := Option.bind_eq_some_iff.1 hw
    exact (h.get? hcomponents).get? hw

theorem isJson_of_mem_named {es : List (Value × Value)}
    (h : ∀ e, e ∈ es → (∃ s, e.1 = str s) ∧ e.2.IsJson) :
    ∀ e, e ∈ Value.named es → e.2.IsJson :=
  fun _ he => (h _ ((Value.mem_of_mem_named fun e he => (h e he).1).1 he)).2

/-- A JSON value that is no document is refused, unless it has no first scheme where it needs
one. -/
theorem error_ofValue (h : root.IsJson) {f : Failure} (hf : ofValue root = .error f) :
    (∃ cause, f = .refused cause) ∨
      ∃ family, Family.ofValue root = .ok family ∧ StrayScheme root family f := by
  rw [ofValue] at hf
  split at hf
  next => exact Or.inl ⟨_, (Except.error.inj hf).symm⟩
  next hmap =>
    have hmap : root.isMap = true := by simpa using hmap
    rcases bind_eq_error.1 hf with hfamily | ⟨family, hfamily, hf⟩
    · exact Or.inl (refused_of_family hmap hfamily)
    rcases bind_eq_error.1 hf with hpaths | ⟨paths, hpaths, hf⟩
    · exact Or.inl ⟨_, refused_of_table hpaths⟩
    rcases bind_eq_error.1 hf with hdefinitions | ⟨definitions, hdefinitions, hf⟩
    · exact Or.inl ⟨_, refused_of_table hdefinitions⟩
    rcases bind_eq_error.1 hf with hbaseUrl | ⟨baseUrl, -, hf⟩
    · exact Or.inr ⟨family, hfamily, (failsFor_baseUrlOf h family).caused f hbaseUrl⟩
    -- the keys are texts, so there is nothing left to complain about
    have hpathsJson := isJson_table (fun w hw => h.get? hw) hpaths
    have hdefinitionsJson := isJson_table (isJson_definitionsOf h family) hdefinitions
    dsimp only at hf
    rw [Value.keyIssues_eq_nil fun e he => (hpathsJson e he).1,
      Value.keyIssues_eq_nil fun e he => (hdefinitionsJson e he).1,
      Value.keyIssues_eq_nil fun e he => (h.of_mem_entries he).1] at hf
    cases hf

/-- A JSON value that is a document has parts from JSON, and a first scheme where it needs one. -/
theorem isJson_ofValue (h : root.IsJson) {d : Document} (hd : ofValue root = .ok d) :
    d.IsJson ∧ Family.ofValue root = .ok d.family ∧ ∀ f, ¬ StrayScheme root d.family f := by
  obtain ⟨-, family, paths, definitions, baseUrl, hfamily, hpaths, hdefinitions, hbaseUrl,
    -, -, -, rfl⟩ :=
    ofValue_eq_ok.1 hd
  have hpathsJson := isJson_table (fun w hw => h.get? hw) hpaths
  have hdefinitionsJson := isJson_table (isJson_definitionsOf h family) hdefinitions
  have hroot : (map (Value.textKeyed root.entries)).IsJson := by
    rw [Value.textKeyed_eq_self_of_str fun e he => (h.of_mem_entries he).1]
    exact .map (fun e he => (h.of_mem_entries he).1) fun e he => (h.of_mem_entries he).2
  exact ⟨⟨hroot, isJson_of_mem_named hpathsJson, isJson_of_mem_named hdefinitionsJson⟩, hfamily,
    ((failsFor_baseUrlOf h family).clear baseUrl hbaseUrl).2⟩

/-! ## Generating -/

/-- What a document is not generated from for. -/
def StrayPart (d : Document) (f : Failure) : Prop :=
  (∃ v, v ∈ d.definitions.map Prod.snd ∧ Unread v f) ∨
    ∃ item, item ∈ d.paths.map Prod.snd ∧ Extraction.StrayItem d item f

theorem failsFor_entriesOf {defs : List (String × Value)} (h : ∀ e, e ∈ defs → e.2.IsJson) :
    FailsFor (SchemaIndex.entriesOf defs) (fun f => ∃ v, v ∈ defs.map Prod.snd ∧ Unread v f)
      fun es => ∀ e, e ∈ es → e.2.Printable := by
  induction defs with
  | nil => exact .of_ok (fun e he => absurd he List.not_mem_nil) fun f hf =>
    FailsFor.exists_mem_nil hf
  | cons e rest ih =>
    rw [SchemaIndex.entriesOf]
    exact FailsFor.congr ((Schema.failsFor_ofValue e.2 (h e List.mem_cons_self)).bind fun s hs =>
      (ih fun e' he => h e' (List.mem_cons_of_mem _ he)).map fun es hes =>
        List.forall_mem_cons.2 ⟨hs, hes⟩) fun f => FailsFor.exists_mem_cons

theorem failsFor_index {d : Document} (hd : d.IsJson) :
    FailsFor (SchemaIndex.ofDocument d) (fun f => ∃ v, v ∈ d.definitions.map Prod.snd ∧ Unread v f)
      fun index => ∀ e, e ∈ index.entries → e.2.Printable := by
  rw [SchemaIndex.ofDocument]
  exact (failsFor_entriesOf hd.definitions).map fun es hes => hes

end Document

namespace Generation

open Document (StrayPart StrayScheme)
open Extraction (Mislaid StrayItem StrayMethod StrayOperation StrayParameter)

variable {d : Document} {limit : Nat} {options : Options} {f : Failure}

/-- What a stray field is reported as: a value or a kind of value that does not fit, or an
unfit model. -/
def IsSlip (f : Failure) : Prop :=
  f = .mishap .wrongValue ∨ f = .mishap .wrongType ∨ f = .mishap .missingKey ∨
    ∃ model, f = .invalid model

theorem isSlip_of_unread {v : Value} (h : Unread v f) : IsSlip f :=
  Or.inr (Or.inr (Or.inr ⟨_, h.1⟩))

theorem isSlip_of_mislaid {v : Value} (h : Mislaid d v f) : IsSlip f := Or.inl h.1

theorem isSlip_of_strayParameter {p : Value} (h : StrayParameter p f) : IsSlip f :=
  h.2.elim isSlip_of_unread fun hf => Or.inr (Or.inr (Or.inr ⟨_, hf.1⟩))

theorem isSlip_of_strayOperation {op : Value} {ps : List Value} (h : StrayOperation d op ps f) :
    IsSlip f := by
  cases h with
  | parameter _ h => exact isSlip_of_strayParameter h
  | reference _ h => exact isSlip_of_mislaid h
  | body _ h => exact isSlip_of_unread h
  | answer _ h => exact h.elim isSlip_of_mislaid fun ⟨_, _, hf⟩ => isSlip_of_unread hf
  | texts h => exact Or.inr (Or.inr (Or.inr ⟨_, h.2⟩))

theorem isSlip_of_strayItem {item : Value} (h : StrayItem d item f) : IsSlip f := by
  obtain ⟨-, ⟨_, -, hf⟩ | ⟨m, op, -, hf⟩⟩ := h
  · exact isSlip_of_mislaid hf
  · cases hf with
    | reference _ h => exact isSlip_of_mislaid h
    | unmatched h => exact Or.inr (Or.inl h.1)
    | operation h => exact isSlip_of_strayOperation h

theorem isSlip_of_strayPart (h : StrayPart d f) : IsSlip f :=
  h.elim (fun ⟨_, _, hf⟩ => isSlip_of_unread hf) fun ⟨_, _, hf⟩ => isSlip_of_strayItem hf

theorem isSlip_of_strayScheme {root : Value} {family : Family} (h : StrayScheme root family f) :
    IsSlip f := by
  obtain ⟨-, -, v, -, -, -, hf⟩ := h
  rw [hf]
  cases v.isMap with
  | true => exact Or.inr (Or.inr (Or.inl rfl))
  | false => exact Or.inr (Or.inl rfl)

/-- A slip is reported as it is: it is neither a refusal nor the failure of a deep schema. -/
theorem IsSlip.reported (h : IsSlip f) : reported f = f ∧ ∀ cause, f ≠ .refused cause := by
  rcases h with rfl | rfl | rfl | ⟨model, rfl⟩
  all_goals exact ⟨rfl, fun cause hf => (nomatch hf)⟩

/-- A document from JSON is taken apart unless a part of it is stray or lies too deep, and
then all of its schemas can be written. -/
theorem parts_cases (hd : d.IsJson) (limit : Nat) (options : Options) :
    (∃ f, (parts d limit options).outcome = .error f ∧ StrayPart d f) ∨
      (∀ f, ¬ StrayPart d f) ∧ ((parts d limit options).outcome = .error (.mishap .tooDeep) ∨
        ∃ p, (parts d limit options).outcome = .ok p ∧ (∀ e, e ∈ p.index.entries → e.2.Printable) ∧
          ∀ g, g ∈ p.groups → ∀ o, o ∈ g.operations → o.Printable) := by
  have hindex := Document.failsFor_index hd
  have hoperations := Document.failsFor_operations hd.root hd.paths
  rw [parts, Checked.outcome_bind, Checked.outcome_ofExcept]
  cases hi : SchemaIndex.ofDocument d with
  | error f => exact Or.inl ⟨f, rfl, Or.inl (hindex.caused f hi)⟩
  | ok index =>
    dsimp only
    rw [Checked.outcome_bind]
    cases ho : d.operations.outcome with
    | error f => exact Or.inl ⟨f, rfl, Or.inr (hoperations.caused f ho)⟩
    | ok os =>
      obtain ⟨hentries, hnoIndex⟩ := hindex.clear index hi
      obtain ⟨hos, hnoOperation⟩ := hoperations.clear os ho
      refine Or.inr ⟨fun f hf => hf.elim (hnoIndex f) (hnoOperation f), ?_⟩
      dsimp only
      cases hlimit : withinLimit limit index os with
      | false => exact Or.inl rfl
      | true =>
        refine Or.inr ⟨_, rfl, hentries, fun g hg o ho => hos o ?_⟩
        have hperm := Group.perm_ofOperations (Naming.serviceName d.info.title options.serviceName)
          options.rules options.versions os
        exact hperm.mem_iff.1 (List.mem_flatMap.2 ⟨g, hg, ho⟩)

theorem outcome_generate_of_parts (h : (parts d limit options).outcome = .error f) :
    (d.generate limit options).outcome = .error (reported f) := by
  have hreporting : ∀ x : Checked Output, (x.reporting reported).outcome =
    x.outcome.mapError reported :=
    fun _ => rfl
  rw [Document.generate, hreporting, Checked.outcome_bind, h]
  rfl

/-- A document from JSON generates nothing if a part of it is stray, and its files otherwise,
unless it is refused for a schema that lies too deep. -/
theorem generate_cases (hd : d.IsJson) :
    (∃ f, (d.generate limit options).outcome = .error f ∧ StrayPart d f) ∨
      (∀ f, ¬ StrayPart d f) ∧
      ((d.generate limit options).outcome = .error (.refused .nestingTooDeep) ∨
        ∃ out, (d.generate limit options).outcome = .ok out) := by
  rcases parts_cases hd limit options with ⟨f, hf, hstray⟩ |
    ⟨hnone, hdeep | ⟨p, hp, hindex, hgroups⟩⟩
  · have hreported := outcome_generate_of_parts hf
    rw [(isSlip_of_strayPart hstray).reported.1] at hreported
    exact Or.inl ⟨f, hreported, hstray⟩
  · exact Or.inr ⟨hnone, Or.inl (outcome_generate_of_parts hdeep)⟩
  · obtain ⟨⟨t, sources⟩, ht⟩ := exists_types hindex hgroups
    obtain ⟨folders, hfolders⟩ := exists_folderOutputs t sources hgroups
    exact Or.inr ⟨hnone, Or.inr ⟨_, outcome_generate_eq_ok.2
      ⟨p, t, sources, folders, hp, ht, hfolders, rfl⟩⟩⟩

/-! ## From a JSON value to files -/

/-- What is generated from a decoded value, once it is read as a document, where there is room
to follow schemas that are no deeper than `limit`. -/
def ofValue (root : Value) (limit : Nat) (options : Options) : Checked Output := do
  (← Document.load root).generate limit options

/-- What a decoded value fails for, although it is well-formed as a document: schemes without
a first one where a host needs it, or a stray part. -/
inductive Stray (root : Value) : Failure → Prop
  | scheme {family : Family} {f : Failure} (hfamily : Family.ofValue root = .ok family)
      (h : StrayScheme root family f) : Stray root f
  | part {d : Document} {f : Failure} (hd : Document.ofValue root = .ok d) (h : StrayPart d f) :
    Stray root f

/-- Whatever a JSON value holds and whatever the limit and the options are: files are
generated from it, and then nothing in it is stray; or it is refused; or it fails for
something stray, and not by a refusal. -/
theorem contained_unless_stray {root : Value} (h : root.IsJson) (limit : Nat) (options : Options) :
    (∃ out, (ofValue root limit options).outcome = .ok out ∧ ∀ f, ¬ Stray root f) ∨
      (∃ cause, (ofValue root limit options).outcome = .error (.refused cause)) ∨
      ∃ f, (ofValue root limit options).outcome = .error f ∧ Stray root f ∧
      ∀ cause, f ≠ .refused cause := by
  have hload : (Document.load root).outcome = Document.ofValue root := by
    rw [Document.load, Checked.outcome_bind, Checked.outcome_ofExcept]
    cases Document.ofValue root <;> rfl
  rw [ofValue, Checked.outcome_bind, hload]
  cases hd : Document.ofValue root with
  | error f =>
    rcases Document.error_ofValue h hd with ⟨cause, rfl⟩ | ⟨family, hfamily, hstray⟩
    · exact Or.inr (Or.inl ⟨cause, rfl⟩)
    · exact Or.inr (Or.inr ⟨f, rfl, .scheme hfamily hstray,
        (isSlip_of_strayScheme hstray).reported.2⟩)
  | ok d =>
    obtain ⟨hjson, hfamily, hnoScheme⟩ := Document.isJson_ofValue h hd
    dsimp only
    rcases generate_cases hjson with ⟨f, hf, hstray⟩ | ⟨hnone, hdeep | ⟨out, hout⟩⟩
    · exact Or.inr (Or.inr ⟨f, hf, .part hd hstray, (isSlip_of_strayPart hstray).reported.2⟩)
    · exact Or.inr (Or.inl ⟨_, hdeep⟩)
    · refine Or.inl ⟨out, hout, fun f hf => ?_⟩
      cases hf with
      | scheme hfamily' hstray =>
        rw [Except.ok.inj (hfamily'.symm.trans hfamily)] at hstray
        exact hnoScheme f hstray
      | part hd' hstray =>
        rw [Except.ok.inj (hd'.symm.trans hd)] at hstray
        exact hnone f hstray

/-- A document whose one operation refers for a parameter to an item of a list, by a
superscript two. -/
def superscript : Value :=
  map [
    (str "swagger", str "2.0"),
    (str "info", map [(str "title", str "Clinic")]),
    (str "tags", list []),
    (str "paths", map [(str "/visits", map [
      (str "get", map [(str "parameters", list [map [(str "$ref", str "#/tags/²")]])])])])]

theorem isJson_superscript : superscript.IsJson :=
  have reference : (map [(str "$ref", str "#/tags/²")]).IsJson := .map_cons (.str _) .map_nil
  have method : (map [(str "parameters", list [map [(str "$ref", str "#/tags/²")]])]).IsJson :=
    .map_cons (.list_cons reference .list_nil) .map_nil
  have paths : (map [(str "/visits", map [(str "get",
      map [(str "parameters", list [map [(str "$ref", str "#/tags/²")]])])])]).IsJson :=
    .map_cons (.map_cons method .map_nil) .map_nil
  .map_cons (.str _) (.map_cons (.map_cons (.str _) .map_nil)
    (.map_cons .list_nil (.map_cons paths .map_nil)))

/-- Whether a run fails for a value that does not fit. -/
def isMisfit : Except Failure Output → Bool
  | .error (.mishap .wrongValue) => true
  | _ => false

theorem eq_of_isMisfit {r : Except Failure Output} (h : isMisfit r = true) :
    r = .error (.mishap .wrongValue) := by
  unfold isMisfit at h
  split at h
  next => rfl
  next => cases h

/-- It fails for a value that does not fit. -/
theorem outcome_superscript : (ofValue superscript 300 .default).outcome = .error
    (.mishap .wrongValue) := by
  have hrun : isMisfit (ofValue superscript 300 .default).outcome = true := by decide +kernel
  exact eq_of_isMisfit hrun

theorem contained_unless_stray_superscript :
    superscript.IsJson ∧ (ofValue superscript 300 .default).outcome = .error (.mishap .wrongValue) ∧
      Stray superscript (.mishap .wrongValue) := by
  refine ⟨isJson_superscript, outcome_superscript, ?_⟩
  rcases contained_unless_stray isJson_superscript 300 .default with ⟨out, hout, -⟩ |
    ⟨cause, hcause⟩ | ⟨f, hf, hstray, -⟩
  · cases outcome_superscript.symm.trans hout
  · cases outcome_superscript.symm.trans hcause
  · cases outcome_superscript.symm.trans hf
    exact hstray

/-- It is not contained. -/
theorem not_contained_superscript : ¬ ∀ root : Value, root.IsJson → ∀ limit options,
    (∃ out, (ofValue root limit options).outcome = .ok out) ∨
      ∃ cause, (ofValue root limit options).outcome = .error (.refused cause) := by
  intro hcontained
  rcases hcontained superscript isJson_superscript 300 .default with ⟨out, hout⟩ | ⟨cause, hcause⟩
  · cases outcome_superscript.symm.trans hout
  · cases outcome_superscript.symm.trans hcause

end Generation

end TypedClients
