import TypedClients.Proofs.Operation.Keys
import TypedClients.Proofs.Operation.References

/-!
# Parameters of an operation and of its path

A path and its operations may declare parameters with one name for one place, and a list may
do so itself. Of these one should be left: the last of the operation, or else the last of the
path (`LastWins`).

What is left is found by a comparison of the two lists: a parameter of the path goes if one of
the operation is the same, and all others stay, in order (`MergesAt.read`). So the last
parameter with a name is the right one (`MergesAt.last`), unless one of the path went for the
sake of another name, as those of `1` and `true` do. But it need not be the only one: neither
list is compared with itself, and names are compared as values, before they are turned into
texts.

* `MergesAt.of_read`: what follows for a place, with the exact condition for one parameter a name.
* `merges_operationsOfMethods`, `merges_operationsOfPaths`: what is left at each place of the
  operations of a path, and of some paths.
* `operations_merge_parameters`: and of a document.
-/

namespace TypedClients

/-- The parameters of an operation at a place. -/
def Operation.parametersAt (o : Operation) : Location → List Parameter
  | .path => o.pathParams
  | .query => o.queryParams
  | .header => o.headerParams

theorem Value.eq_of_same_str {s : String} {v : Value} (h : (str s).same v = true) : v = str s := by
  cases v with
  | str t => rw [beq_iff_eq.1 h]
  | _ => cases h

theorem Value.eq_of_str? {s : String} {v : Value} (h : v.str? = some s) : v = str s := by
  cases v with
  | str t => rw [Option.some.inj h]
  | _ => cases h

theorem Location.word_ne_empty (l : Location) : l.word ≠ "" := by
  cases l <;> decide

theorem Location.ofWord?_word (l : Location) : ofWord? l.word = some l := by
  cases l <;> decide

namespace Extraction

open Migration (merged)

variable {d : Document} {l : Location} {item op p q : Value} {ps shared own : List Value}
  {qs : List Parameter} {o : Operation} {n : String}

/-! ## Places -/

/-- Whether a parameter is declared for a place. -/
def isAt (l : Location) (p : Value) : Bool := location? p = some l

theorem isAt_iff : isAt l p = true ↔ p.get? "in" = some (.str l.word) := by
  rw [isAt, decide_eq_true_iff, location?]
  constructor
  · intro h
    obtain ⟨w, hw, hl⟩ := Option.bind_eq_some_iff.1 h
    obtain ⟨v, hv, hw⟩ := Option.bind_eq_some_iff.1 hw
    rw [Location.ofWord?] at hl
    have hword := List.find?_some hl
    rw [hv, Value.eq_of_str? hw, ← of_decide_eq_true hword]
  · intro h
    rw [h]
    exact l.ofWord?_word

/-- The same parameter is declared for the same place. -/
theorem isAt_of_sameParameter (h : sameParameter p q = true) (hp : isAt l p = true) :
    isAt l q = true := by
  rw [isAt_iff] at hp ⊢
  rw [sameParameter, Bool.and_eq_true, identity, hp] at h
  have hq : (q.get? "in").getD (.str "") = .str l.word := Value.eq_of_same_str h.2
  cases hget : q.get? "in" with
  | none =>
    rw [hget] at hq
    exact absurd (Value.str.inj hq).symm l.word_ne_empty
  | some v =>
    rw [hget] at hq
    exact congrArg some hq

/-- What is declared for a place in a list of parameters that an object has. -/
def declaredAt (d : Document) (l : Location) (holder : Value) : List Value :=
  (targets d (listed (holder.get? "parameters"))).filter (isAt l)

/-- The parameters of a path that an operation does not override. -/
def kept (shared own : List Value) : List Value := shared.filter fun p => !own.any (sameParameter p)

/-- Overriding is up to the parameters at the same place. -/
theorem filter_merged (l : Location) (shared own : List Value) :
    (merged shared own).filter (isAt l) =
      kept (shared.filter (isAt l)) (own.filter (isAt l)) ++ own.filter (isAt l) := by
  rw [merged, List.filter_append, kept, List.filter_filter, List.filter_filter]
  refine congrArg (· ++ own.filter (isAt l)) (List.filter_congr fun p _ => ?_)
  rw [List.any_filter, Bool.and_comm]
  cases hp : isAt l p with
  | false => rw [Bool.and_false, Bool.and_false]
  | true =>
    have hany : own.any (sameParameter p) = own.any fun q => isAt l q && sameParameter p q := by
      refine congrArg own.any (funext fun q => ?_)
      cases hsame : sameParameter p q with
      | false => rw [Bool.and_false]
      | true => rw [isAt_of_sameParameter hsame hp, Bool.and_true]
    rw [hany]

/-! ## What is read of a place -/

theorem name_of_parameter {r : Parameter} (h : parameter p l = .ok r) :
    r.name = nameOf p ∧ r.location = l := by
  obtain ⟨s, -, h⟩ := bind_eq_ok.1 h
  obtain ⟨t, -, h⟩ := bind_eq_ok.1 h
  cases h
  exact ⟨rfl, rfl⟩

/-- The parameters at a place are read one by one. -/
theorem map_parameter_of_parameters (h : parameters ps = .ok qs) (l : Location) :
    (ps.filter (isAt l)).map (parameter · l) = (qs.filter (·.location = l)).map .ok := by
  induction ps generalizing qs with
  | nil =>
    cases h
    rfl
  | cons p rest ih =>
    rw [parameters] at h
    cases hp : location? p with
    | none =>
      rw [hp] at h
      rw [List.filter_cons_of_neg (by simp [isAt, hp]), ih h]
    | some l' =>
      rw [hp] at h
      obtain ⟨r, hr, h⟩ := bind_eq_ok.1 h
      obtain ⟨rs, hrs, h⟩ := bind_eq_ok.1 h
      cases h
      have hlocation := (name_of_parameter hr).2
      by_cases hl : l' = l
      · subst hl
        rw [List.filter_cons_of_pos (by simp [isAt, hp]),
          List.filter_cons_of_pos (by simp [hlocation]), List.map_cons, List.map_cons, ih hrs, hr]
      · rw [List.filter_cons_of_neg (by simp [isAt, hp, hl]),
          List.filter_cons_of_neg (by simp [hlocation, hl]), ih hrs]

/-! ## The last parameter with a name -/

/-- The last parameter with a name. -/
def lastNamed (n : String) (ps : List Value) : Option Value := ps.reverse.find? (nameOf · = n)

theorem lastNamed_append (n : String) (ps rest : List Value) :
    lastNamed n (ps ++ rest) = (lastNamed n rest).or (lastNamed n ps) := by
  rw [lastNamed, List.reverse_append, List.find?_append]
  rfl

theorem lastNamed_eq_none : lastNamed n ps = none ↔ n ∉ ps.map nameOf := by
  rw [lastNamed, List.find?_eq_none]
  simp [eq_comm]

/-- Of distinct names the first is the last. -/
theorem find?_eq_lastNamed (h : (ps.map nameOf).Nodup) (n : String) :
    ps.find? (nameOf · = n) = lastNamed n ps := by
  induction ps with
  | nil => rfl
  | cons p rest ih =>
    obtain ⟨hp, hrest⟩ := List.nodup_cons.1 h
    rw [← List.singleton_append, lastNamed_append, ← ih hrest, List.find?_append]
    by_cases hn : nameOf p = n
    · have hnone : rest.find? (nameOf · = n) = none := by
        rw [ih hrest, lastNamed_eq_none, ← hn]
        exact hp
      rw [hnone, Option.or_none, Option.none_or]
      rfl
    · have hnone : [p].find? (nameOf · = n) = none := by simp [hn]
      have hlast : lastNamed n [p] = none := hnone
      rw [hnone, hlast, Option.none_or, Option.or_none]

section Reading

variable (h : qs.map .ok = ps.map (parameter · l))

include h

theorem map_name_of_read : qs.map (·.name) = ps.map nameOf := by
  induction ps generalizing qs with
  | nil => rw [List.map_eq_nil_iff.1 h]; rfl
  | cons p rest ih =>
    cases qs with
    | nil => cases h
    | cons r rs =>
      obtain ⟨hr, hrs⟩ := List.cons.inj h
      rw [List.map_cons, List.map_cons, (name_of_parameter hr.symm).1, ih hrs]

/-- A parameter is found by its name where the one it is read from is. -/
theorem find?_of_read (n : String) :
    (qs.find? (·.name = n)).map .ok = (ps.find? (nameOf · = n)).map (parameter · l) := by
  induction ps generalizing qs with
  | nil => rw [List.map_eq_nil_iff.1 h]; rfl
  | cons p rest ih =>
    cases qs with
    | nil => cases h
    | cons r rs =>
      obtain ⟨hr, hrs⟩ := List.cons.inj h
      have hname := (name_of_parameter hr.symm).1
      by_cases hn : nameOf p = n
      · rw [List.find?_cons_of_pos (by simp [hname, hn]), List.find?_cons_of_pos (by simp [hn])]
        exact congrArg some hr
      · rw [List.find?_cons_of_neg (by simp [hname, hn]), List.find?_cons_of_neg (by simp [hn])]
        exact ih hrs

theorem reverse_read : qs.reverse.map .ok = ps.reverse.map (parameter · l) := by
  rw [List.map_reverse, h, List.map_reverse]

end Reading

/-- At a place there is one parameter for each name, read from the last that the operation
declares, or else from the last that the path does. -/
structure LastWins (l : Location) (shared own : List Value) (qs : List Parameter) : Prop where
  distinct : (qs.map (·.name)).Nodup
  last : ∀ n, (qs.find? (·.name = n)).map .ok =
    ((lastNamed n own).or (lastNamed n shared)).map (parameter · l)

/-- There is one parameter for each name, and the right one, exactly if no name is left twice
and what the path declares last is overridden by its own name only. -/
theorem lastWins_iff_of_read (h : qs.map .ok = (kept shared own ++ own).map (parameter · l)) :
    LastWins l shared own qs ↔
      ((kept shared own ++ own).map nameOf).Nodup ∧ ∀ n, lastNamed n own = none →
        (lastNamed n (kept shared own)).map (parameter · l) =
          (lastNamed n shared).map (parameter · l) := by
  have hfind : ((kept shared own ++ own).map nameOf).Nodup → ∀ n,
      (qs.find? (·.name = n)).map .ok =
        ((lastNamed n own).or (lastNamed n (kept shared own))).map (parameter · l) := by
    intro hnodup n
    rw [find?_of_read h, find?_eq_lastNamed hnodup, lastNamed_append]
  constructor
  · rintro ⟨hdistinct, hlast⟩
    rw [map_name_of_read h] at hdistinct
    refine ⟨hdistinct, fun n hn => ?_⟩
    have hsame := (hfind hdistinct n).symm.trans (hlast n)
    rw [hn, Option.none_or, Option.none_or] at hsame
    exact hsame
  · rintro ⟨hdistinct, hshared⟩
    refine ⟨(map_name_of_read h).symm ▸ hdistinct, fun n => (hfind hdistinct n).trans ?_⟩
    cases hn : lastNamed n own with
    | none => exact hshared n hn
    | some p => rfl

/-! ## Names that are texts -/

section Texts

variable (hat : ∀ p, p ∈ shared ++ own → isAt l p = true)
  (htexts : ∀ p, p ∈ shared ++ own → ∃ s, p.get? "name" = some (.str s))

/-- Parameters at a place whose names are texts are the same if their names are. -/
theorem sameParameter_iff_of_texts (hp : isAt l p = true) (hq : isAt l q = true) {s t : String}
    (hs : p.get? "name" = some (.str s)) (ht : q.get? "name" = some (.str t)) :
    sameParameter p q = true ↔ nameOf q = nameOf p := by
  rw [isAt_iff] at hp hq
  rw [sameParameter, identity, identity, nameOf, nameOf, hp, hq, hs, ht]
  simp only [Option.getD_some, Option.map_some, Value.same_str, Value.display_str, beq_self_eq_true,
    Bool.and_true, beq_iff_eq]
  exact eq_comm

include hat htexts

theorem kept_eq_of_texts :
    kept shared own = shared.filter fun p => nameOf p ∉ own.map nameOf := by
  refine List.filter_congr fun p hp => ?_
  obtain ⟨s, hs⟩ := htexts p (List.mem_append_left _ hp)
  have hany : own.any (sameParameter p) = true ↔ nameOf p ∈ own.map nameOf := by
    rw [List.any_eq_true, List.mem_map]
    refine exists_congr fun q => and_congr_right fun hq => ?_
    obtain ⟨t, ht⟩ := htexts q (List.mem_append_right _ hq)
    exact sameParameter_iff_of_texts (hat p (List.mem_append_left _ hp))
      (hat q (List.mem_append_right _ hq)) hs ht
  rw [Bool.eq_iff_iff, Bool.not_eq_true', ← Bool.not_eq_true, hany, decide_eq_true_iff]

/-- What the path declares last for a name is left, unless the operation declares the name. -/
theorem lastNamed_kept_of_texts (hn : lastNamed n own = none) :
    lastNamed n (kept shared own) = lastNamed n shared := by
  rw [lastNamed_eq_none] at hn
  rw [kept_eq_of_texts hat htexts, lastNamed, ← List.filter_reverse, List.find?_filter, lastNamed]
  refine congrArg (List.find? · shared.reverse) (funext fun p => ?_)
  rw [Bool.eq_iff_iff, decide_eq_true_iff, decide_eq_true_iff, decide_eq_true_iff]
  exact ⟨And.right, fun h => ⟨h ▸ hn, h⟩⟩

theorem nodup_of_texts : ((kept shared own ++ own).map nameOf).Nodup ↔
    (own.map nameOf).Nodup ∧ ((shared.map nameOf).filter fun n => n ∉ own.map nameOf).Nodup := by
  have hkept : (kept shared own).map nameOf =
      (shared.map nameOf).filter fun n => n ∉ own.map nameOf := by
    rw [kept_eq_of_texts hat htexts, List.filter_map]
    rfl
  rw [List.map_append, hkept, List.nodup_append]
  constructor
  · rintro ⟨hshared, hown, -⟩
    exact ⟨hown, hshared⟩
  · rintro ⟨hown, hshared⟩
    refine ⟨hshared, hown, fun n hn n' hn' e => ?_⟩
    exact of_decide_eq_true (List.mem_filter.1 hn).2 (e ▸ hn')

end Texts

/-! ## Places of an operation -/

/-- What stands at a place of an operation, by what the path and the operation declare for it. -/
structure MergesAt (l : Location) (shared own : List Value) (qs : List Parameter) : Prop where
  /-- It is what the path declares and the operation does not override, and then what the
  operation declares. -/
  read : qs.map .ok = (kept shared own ++ own).map (parameter · l)
  /-- The last parameter with a name is from the operation, if that has one of this name. -/
  last : ∀ n, (qs.reverse.find? (·.name = n)).map .ok =
    ((lastNamed n own).or (lastNamed n (kept shared own))).map (parameter · l)
  /-- There is one for each name, and the right one, if no two of these have one name and what
  the path declares last is overridden by its own name only. -/
  lastWins_iff : LastWins l shared own qs ↔
    ((kept shared own ++ own).map nameOf).Nodup ∧ ∀ n, lastNamed n own = none →
      (lastNamed n (kept shared own)).map (parameter · l) = (lastNamed n shared).map (parameter · l)
  /-- Where all names are texts, the two lists need only be without repetitions in themselves. -/
  lastWins_iff_of_texts : (∀ p, p ∈ shared ++ own → ∃ s, p.get? "name" = some (.str s)) →
    (LastWins l shared own qs ↔ (own.map nameOf).Nodup ∧
      ((shared.map nameOf).filter fun n => n ∉ own.map nameOf).Nodup)

/-- If each parameter is read from one that is kept or declared for the operation, all the
rest follows. -/
theorem MergesAt.of_read (hat : ∀ p, p ∈ shared ++ own → isAt l p = true)
    (h : qs.map .ok = (kept shared own ++ own).map (parameter · l)) : MergesAt l shared own qs := by
  refine ⟨h, fun n => ?_, lastWins_iff_of_read h, fun htexts => (lastWins_iff_of_read h).trans ?_⟩
  · rw [← lastNamed_append]
    exact find?_of_read (reverse_read h) n
  · rw [nodup_of_texts hat htexts, and_iff_left fun n hn => ?_]
    rw [lastNamed_kept_of_texts hat htexts hn]

theorem parametersAt_of_operation {path : String} {m : Method}
    (h : (operation d path m op ps).outcome = .ok o) :
    ∃ parsed, parameters ps = .ok parsed ∧
      ∀ l, o.parametersAt l = parsed.filter (·.location = l) := by
  rw [operation_eq] at h
  obtain ⟨parsed, hparsed, h⟩ := Checked.outcome_bind_eq_ok.1 h
  obtain ⟨body, -, h⟩ := Checked.outcome_bind_eq_ok.1 h
  obtain ⟨answers, -, h⟩ := Checked.outcome_bind_eq_ok.1 h
  obtain ⟨texts, -, h⟩ := Checked.outcome_bind_eq_ok.1 h
  cases h
  exact ⟨parsed, hparsed, fun l => by cases l <;> rfl⟩

/-- An operation is read from a path item: it is described there, and has the parameters that
are declared for it at each place. -/
def Merges (d : Document) (item : Value) (o : Operation) : Prop :=
  ∃ op, described? item o.method = some op ∧
    ∀ l, MergesAt l (declaredAt d l item) (declaredAt d l op) (o.parametersAt l)

theorem mergesAt_of_operation {path : String} {m : Method}
    (hmerge : merge (targets d (listed (item.get? "parameters")))
      (targets d (listed (op.get? "parameters"))) = .ok ps)
    (h : (operation d path m op ps).outcome = .ok o) (l : Location) :
    MergesAt l (declaredAt d l item) (declaredAt d l op) (o.parametersAt l) := by
  obtain ⟨parsed, hparsed, hat⟩ := parametersAt_of_operation h
  refine .of_read (fun p hp => ?_) ?_
  · rcases List.mem_append.1 hp with hp | hp
    · exact (List.mem_filter.1 hp).2
    · exact (List.mem_filter.1 hp).2
  · rw [hat, ← map_parameter_of_parameters hparsed, (Migration.merge_eq_ok.1 hmerge).2,
      filter_merged]
    rfl

/-! ## Operations of a document -/

theorem targets_of_collectItems {vs : List Value} (h : (collectItems d vs).outcome = .ok ps) :
    ps = targets d vs := by
  induction vs generalizing ps with
  | nil =>
    cases h
    rfl
  | cons v rest ih =>
    rw [collectItems] at h
    obtain ⟨p, hp, h⟩ := Checked.outcome_bind_eq_ok.1 h
    obtain rfl := outcome_dereference hp
    rw [targets, List.map_cons]
    split at h
    next husable =>
      obtain ⟨rest', hrest, h⟩ := Checked.outcome_bind_eq_ok.1 h
      cases h
      rw [List.filter_cons_of_pos husable, ih hrest, targets]
    next husable =>
      obtain ⟨_, -, h⟩ := Checked.outcome_bind_eq_ok.1 h
      rw [List.filter_cons_of_neg husable, ih h, targets]

theorem targets_of_collect {list : Option Value} (h : (collect d list).outcome = .ok ps) :
    ps = targets d (listed list) := by
  rw [collect] at h
  rw [listed]
  cases hlist : list.bind Value.items? with
  | none =>
    rw [hlist] at h
    cases h
    rfl
  | some items =>
    rw [hlist] at h
    exact targets_of_collectItems h

/-- The operations of a path have their parameters from its item. -/
theorem merges_operationsOfMethods {path : String} {ms : List Method} {os : List Operation}
    (h : (operationsOfMethods d path item (targets d (listed (item.get? "parameters")))
      ms).outcome = .ok os) : ∀ o, o ∈ os → Merges d item o := by
  induction ms generalizing os with
  | nil =>
    cases h
    exact fun o ho => absurd ho List.not_mem_nil
  | cons m rest ih =>
    rw [operationsOfMethods] at h
    split at h
    next => exact ih h
    next op hop =>
      obtain ⟨own, hown, h⟩ := Checked.outcome_bind_eq_ok.1 h
      obtain rfl := targets_of_collect hown
      obtain ⟨ps, hps, h⟩ := Checked.outcome_bind_eq_ok.1 h
      obtain ⟨o, ho, h⟩ := Checked.outcome_bind_eq_ok.1 h
      obtain ⟨others, hothers, h⟩ := Checked.outcome_bind_eq_ok.1 h
      cases h
      refine List.forall_mem_cons.2 ⟨⟨op, ?_, mergesAt_of_operation hps ho⟩, ih hothers⟩
      rw [(place_of_operation ho).2]
      exact hop

/-- Those of some paths have them from the items of their paths. -/
theorem merges_operationsOfPaths {paths : List (String × Value)} {os : List Operation}
    (h : (operationsOfPaths d paths).outcome = .ok os) :
    ∀ o, o ∈ os → ∃ item, (o.path, item) ∈ paths ∧ Merges d item o := by
  induction paths generalizing os with
  | nil =>
    cases h
    exact fun o ho => absurd ho List.not_mem_nil
  | cons e rest ih =>
    obtain ⟨path, item⟩ := e
    have hrest : ∀ {os}, (operationsOfPaths d rest).outcome = .ok os → ∀ o, o ∈ os →
        ∃ item', (o.path, item') ∈ (path, item) :: rest ∧ Merges d item' o := by
      intro os hos o ho
      obtain ⟨item', hmem, hmerges⟩ := ih hos o ho
      exact ⟨item', List.mem_cons_of_mem _ hmem, hmerges⟩
    rw [operationsOfPaths] at h
    split at h
    · obtain ⟨shared, hshared, h⟩ := Checked.outcome_bind_eq_ok.1 h
      obtain rfl := targets_of_collect hshared
      obtain ⟨here, hhere, h⟩ := Checked.outcome_bind_eq_ok.1 h
      obtain ⟨others, hothers, h⟩ := Checked.outcome_bind_eq_ok.1 h
      cases h
      intro o ho
      rcases List.mem_append.1 ho with ho | ho
      · refine ⟨item, ?_, merges_operationsOfMethods hhere o ho⟩
        rw [(places_of_operationsOfMethods hhere).1 o ho]
        exact List.mem_cons_self
      · exact hrest hothers o ho
    · obtain ⟨_, -, h⟩ := Checked.outcome_bind_eq_ok.1 h
      exact hrest h

/-- Each operation of a document has, at each place, what its path declares and it does not
override, and then what it declares itself; there is one parameter for each name, the last of
the operation or else of the path, exactly if no name is left twice and what the path declares
last is overridden by its own name only. -/
theorem operations_merge_parameters {d : Document} {os : List Operation}
    (h : d.operations.outcome = .ok os) :
    ∀ o, o ∈ os → ∃ item, (o.path, item) ∈ d.paths ∧ Merges d item o := by
  obtain ⟨os', hos, h⟩ := Checked.outcome_bind_eq_ok.1 h
  obtain ⟨_, -, h⟩ := Checked.outcome_bind_eq_ok.1 h
  cases h
  exact merges_operationsOfPaths hos

/-- A parameter with a name at a place. -/
def named (name : Value) (place type : String) : Value :=
  .map [(.str "in", .str place), (.str "name", name), (.str "type", .str type)]

/-- A document with one operation, which makes the day of its path a number. -/
def clinic : Value :=
  .map [
    (.str "swagger", .str "2.0"),
    (.str "paths", .map [
      (.str "/visits/{id}", .map [
        (.str "parameters", .list [named (.str "id") "path" "string",
          named (.str "day") "query" "string"]),
        (.str "get", .map [
          (.str "parameters", .list [named (.str "day") "query" "integer"])])])])]

/-- Its day is that of the operation. -/
theorem operations_merge_parameters_clinic :
    ∃ d o item op, Document.ofValue clinic = .ok d ∧ d.operations.outcome = .ok [o] ∧
      (o.path, item) ∈ d.paths ∧ described? item o.method = some op ∧
      (∀ l, LastWins l (declaredAt d l item) (declaredAt d l op) (o.parametersAt l)) ∧
      (o.queryParams.map (·.name)) = ["day"] := by
  have hrun : ((Document.ofValue clinic).toOption.any fun d =>
      (d.operations.outcome.toOption.any fun os =>
        os.length == 1 && os.all fun o => decide (o.queryParams.map (·.name) = ["day"])) &&
      d.paths.all fun e => Method.all.all fun m => (described? e.2 m).all fun op =>
        [Location.path, .query, .header].all fun l =>
          ((declaredAt d l e.2 ++ declaredAt d l op).all fun p =>
            ((p.get? "name").bind Value.str?).isSome) &&
          decide (((declaredAt d l op).map nameOf).Nodup ∧
            (((declaredAt d l e.2).map nameOf).filter fun n =>
              n ∉ (declaredAt d l op).map nameOf).Nodup)) = true := by
    decide +kernel
  obtain ⟨d, hd, hrun⟩ := (Option.any_eq_true _ _).1 hrun
  obtain ⟨hrun, hpaths⟩ := (Bool.and_eq_true _ _).mp hrun
  obtain ⟨os, hos, hrun⟩ := (Option.any_eq_true _ _).1 hrun
  obtain ⟨hlength, hall⟩ := (Bool.and_eq_true _ _).mp hrun
  obtain ⟨o, rfl⟩ := List.length_eq_one_iff.1 (beq_iff_eq.1 hlength)
  have hos := Failure.eq_ok_of_toOption hos
  obtain ⟨item, hitem, op, hop, hmerges⟩ := operations_merge_parameters hos o List.mem_cons_self
  refine ⟨d, o, item, op, Failure.eq_ok_of_toOption hd, hos, hitem, hop, fun l => ?_,
    of_decide_eq_true (List.all_eq_true.1 hall o List.mem_cons_self)⟩
  have hmethod := List.all_eq_true.1 (List.all_eq_true.1 hpaths _ hitem) o.method o.method.mem_all
  rw [hop, Option.all_some] at hmethod
  obtain ⟨htexts, hnodup⟩ := (Bool.and_eq_true _ _).mp
    (List.all_eq_true.1 hmethod l (by cases l <;> decide))
  refine ((hmerges l).lastWins_iff_of_texts fun p hp => ?_).2 (of_decide_eq_true hnodup)
  obtain ⟨s, hs⟩ := Option.isSome_iff_exists.1 (List.all_eq_true.1 htexts p hp)
  obtain ⟨v, hv, hs⟩ := Option.bind_eq_some_iff.1 hs
  exact ⟨s, hv.trans (congrArg some (Value.eq_of_str? hs))⟩

/-- A document with one operation, which declares a day twice, and a number as a text and as
what it is. -/
def rooms : Value :=
  .map [
    (.str "swagger", .str "2.0"),
    (.str "paths", .map [
      (.str "/rooms/{1}", .map [
        (.str "parameters", .list [named (.int 1) "header" "string",
          named (.int 1) "path" "string"]),
        (.str "get", .map [
          (.str "parameters", .list [
            named (.str "day") "query" "string", named (.str "day") "query" "integer",
            named (.str "1") "header" "string", named (.bool true) "path" "string"])])])])]

/-- It has two days in the query, two headers of one name, and nothing for the placeholder of
its path, which is overridden by another name. -/
theorem rooms_not_lastWins :
    ∃ d o item op, Document.ofValue rooms = .ok d ∧ d.operations.outcome = .ok [o] ∧
      (o.path, item) ∈ d.paths ∧ described? item o.method = some op ∧
      ∀ l, ¬ LastWins l (declaredAt d l item) (declaredAt d l op) (o.parametersAt l) := by
  have hrun : ((Document.ofValue rooms).toOption.any fun d =>
      d.operations.outcome.toOption.any fun os =>
        os.length == 1 && os.all fun o =>
          decide (o.queryParams.map (·.name) = ["day", "day"] ∧
            o.headerParams.map (·.name) = ["1", "1"] ∧ o.pathParams.map (·.name) = ["True"]) &&
          d.paths.any fun e => e.1 == o.path && (described? e.2 o.method).any fun op =>
            decide ("1" ∈ (declaredAt d .path e.2).map nameOf)) = true := by
    decide +kernel
  obtain ⟨d, hd, hrun⟩ := (Option.any_eq_true _ _).1 hrun
  obtain ⟨os, hos, hrun⟩ := (Option.any_eq_true _ _).1 hrun
  obtain ⟨hlength, hall⟩ := (Bool.and_eq_true _ _).mp hrun
  obtain ⟨o, rfl⟩ := List.length_eq_one_iff.1 (beq_iff_eq.1 hlength)
  obtain ⟨hnames, hpaths⟩ :=
    (Bool.and_eq_true _ _).mp (List.all_eq_true.1 hall o List.mem_cons_self)
  obtain ⟨hquery, hheader, hpath⟩ := of_decide_eq_true hnames
  obtain ⟨⟨path, item⟩, hitem, he⟩ := List.any_eq_true.1 hpaths
  obtain ⟨hsame, hop⟩ := (Bool.and_eq_true _ _).mp he
  obtain ⟨op, hop, hone⟩ := (Option.any_eq_true _ _).1 hop
  obtain rfl : path = o.path := beq_iff_eq.1 hsame
  refine ⟨d, o, item, op, Failure.eq_ok_of_toOption hd, Failure.eq_ok_of_toOption hos, hitem, hop,
    fun l hwins => ?_⟩
  cases l with
  | query =>
    have hnodup : (o.queryParams.map (·.name)).Nodup := hwins.distinct
    rw [hquery] at hnodup
    exact absurd hnodup (by decide)
  | header =>
    have hnodup : (o.headerParams.map (·.name)).Nodup := hwins.distinct
    rw [hheader] at hnodup
    exact absurd hnodup (by decide)
  | path =>
    -- no parameter is left for the name of the placeholder
    have hnone : o.pathParams.find? (·.name = "1") = none := by
      refine List.find?_eq_none.2 fun q hq hname => ?_
      have hmem : q.name ∈ o.pathParams.map (·.name) := List.mem_map_of_mem hq
      rw [hpath, of_decide_eq_true hname] at hmem
      exact absurd hmem (by decide)
    have hlast := hwins.last "1"
    rw [Operation.parametersAt, hnone, Option.map_none, eq_comm, Option.map_eq_none_iff,
      Option.or_eq_none_iff, lastNamed_eq_none] at hlast
    exact lastNamed_eq_none.1 hlast.2 (of_decide_eq_true hone)

end Extraction

end TypedClients
