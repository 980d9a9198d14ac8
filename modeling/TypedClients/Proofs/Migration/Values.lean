import TypedClients.Value.AsText

/-!
# Maps that are changed in place

A document is rewritten by changing the values of a map where they stand (`mapFields`) and by
replacing fields of it (`replace`). What is read from the result is said by one lemma for each
way to read a map.

* `get?_mapFields`, `get?_replace`: the fields of the result.
* `named_map`, `keyIssues_map`: its entries under texts, and what is wrong with its keys.
-/

namespace TypedClients

namespace Value

/-- What holds of everything that is no knot, and of a knot if it holds inside of it, holds of
all values. -/
@[elab_as_elim]
theorem inside_induction {p : Value → Prop} (plain : ∀ v, (∀ id w, v ≠ knot id w) → p v)
    (inside : ∀ id v, p v → p (knot id v)) (v : Value) : p v :=
  match v with
  | knot id w => inside id w (inside_induction plain inside w)
  | null | bool _ | int _ | float _ | str _ | bytes _ | list _ | pair _ _ | set _ | map _ | moment _
  | endless => plain _ fun _ _ h => nomatch h

/-- A map with its entries changed. -/
def mapEntries (f : List (Value × Value) → List (Value × Value)) : Value → Value
  | map es => map (f es)
  | knot id v => knot id (v.mapEntries f)
  | v => v

theorem isMap_mapEntries (f : List (Value × Value) → List (Value × Value)) (v : Value) :
    (v.mapEntries f).isMap = v.isMap := by
  induction v using inside_induction with
  | plain v h =>
    cases v with
    | knot id w => exact absurd rfl (h id w)
    | _ => rfl
  | inside id v ih => exact ih

theorem entries_mapEntries {v : Value} (h : v.isMap = true)
    (f : List (Value × Value) → List (Value × Value)) : (v.mapEntries f).entries = f v.entries := by
  revert h
  induction v using inside_induction with
  | plain v h =>
    cases v with
    | map es => exact fun _ => rfl
    | knot id w => exact absurd rfl (h id w)
    | _ => exact fun hmap => nomatch hmap
  | inside id v ih => exact ih

/-- What is no map has no entries. -/
theorem entries_eq_nil {v : Value} (h : v.isMap = false) : v.entries = [] := by
  revert h
  induction v using inside_induction with
  | plain v h =>
    cases v with
    | map es => exact fun hmap => nomatch hmap
    | knot id w => exact absurd rfl (h id w)
    | _ => exact fun _ => rfl
  | inside id v ih => exact ih

theorem get?_eq_none {v : Value} (h : v.isMap = false) (key : String) : v.get? key = none := by
  rw [get?, entries_eq_nil h]
  rfl

/-- A map with its values changed, each as its key says. -/
def mapFields (f : Value → Value → Value) (v : Value) : Value :=
  v.mapEntries (List.map fun e => (e.1, f e.1 e.2))

/-- A map with a field replaced, or removed if there is nothing to replace it. -/
def replace (key : String) (new : Option Value) (v : Value) : Value :=
  v.mapEntries fun es => (es.filter fun e => !e.1.isStr key) ++ new.toList.map fun w => (str key, w)

theorem isMap_mapFields (f : Value → Value → Value) (v : Value) :
    (v.mapFields f).isMap = v.isMap := isMap_mapEntries _ v

theorem entries_mapFields (f : Value → Value → Value) (v : Value) :
    (v.mapFields f).entries = v.entries.map fun e => (e.1, f e.1 e.2) := by
  cases h : v.isMap with
  | true => exact entries_mapEntries h _
  | false => rw [entries_eq_nil h, entries_eq_nil ((isMap_mapFields f v).trans h), List.map_nil]

theorem isGiven_mapFields (f : Value → Value → Value) (v : Value) :
    (v.mapFields f).isGiven = v.isGiven := by
  induction v using inside_induction with
  | plain v h =>
    cases v with
    | map es => rw [mapFields, mapEntries, isGiven, isGiven, List.isEmpty_map]
    | knot id w => exact absurd rfl (h id w)
    | _ => rfl
  | inside id v ih => exact ih

theorem eq_of_isStr {v : Value} {s : String} (h : v.isStr s = true) : v = str s := by
  cases v with
  | str t => rw [of_decide_eq_true (h : (t == s) = true)]
  | _ => cases h

/-- A field of entries whose values are changed, each as its key says. -/
theorem find?_map_entries (f : Value → Value → Value) (es : List (Value × Value)) (key : String) :
    ((es.map fun e => (e.1, f e.1 e.2)).find? fun e => e.1.isStr key).map Prod.snd =
      ((es.find? fun e => e.1.isStr key).map Prod.snd).map (f (str key)) := by
  rw [List.find?_map, Option.map_map, Option.map_map]
  have hsame : ((fun e : Value × Value => e.1.isStr key) ∘ fun e : Value × Value =>
      (e.1, f e.1 e.2)) = fun e => e.1.isStr key := rfl
  rw [hsame]
  cases hf : es.find? fun e => e.1.isStr key with
  | none => rfl
  | some e =>
    have hkey : e.1 = str key := eq_of_isStr (by simpa using List.find?_some hf)
    exact congrArg (fun k => some (f k e.2)) hkey

theorem get?_mapFields (f : Value → Value → Value) (v : Value) (key : String) :
    (v.mapFields f).get? key = (v.get? key).map (f (str key)) := by
  rw [get?, entries_mapFields]
  exact find?_map_entries f v.entries key

theorem isMap_replace (v : Value) (key : String) (new : Option Value) :
    (v.replace key new).isMap = v.isMap := isMap_mapEntries _ v

theorem entries_replace {v : Value} (h : v.isMap = true) (key : String) (new : Option Value) :
    (v.replace key new).entries =
      (v.entries.filter fun e => !e.1.isStr key) ++ new.toList.map fun w => (str key, w) :=
  entries_mapEntries h _

theorem get?_replace {v : Value} (h : v.isMap = true) (key other : String) (new : Option Value) :
    (v.replace key new).get? other = if other = key then new else v.get? other := by
  rw [get?, entries_replace h, List.find?_append, List.find?_filter, get?]
  simp only [Bool.decide_and, Bool.decide_eq_true]
  split
  next he =>
    subst he
    have hnone : v.entries.find? (fun e => !e.1.isStr other && e.1.isStr other) = none :=
      List.find?_eq_none.2 fun e _ => by simp
    have hself : (str other).isStr other = true := decide_eq_true rfl
    rw [hnone]
    cases new with
    | none => rfl
    | some w =>
      simp [hself]
  next hne =>
    have hkey : ∀ e : Value × Value, (!e.1.isStr key && e.1.isStr other) = e.1.isStr other := by
      intro e
      cases hother : e.1.isStr other with
      | false => exact Bool.and_false _
      | true =>
        rw [eq_of_isStr hother, Bool.and_true, Bool.not_eq_true']
        exact decide_eq_false hne
    have hnew : (new.toList.map fun w => (str key, w)).find? (fun e => e.1.isStr other) = none := by
      refine List.find?_eq_none.2 fun e he => ?_
      obtain ⟨w, -, rfl⟩ := List.mem_map.1 he
      exact fun hs => hne (of_decide_eq_true hs).symm
    simp only [hkey]
    rw [hnew, Option.or_none]

/-- No other field is replaced. -/
theorem get?_replace_of_ne (v : Value) {key other : String} (h : other ≠ key) (new : Option Value) :
    (v.replace key new).get? other = v.get? other := by
  cases hmap : v.isMap with
  | true => rw [get?_replace hmap, if_neg h]
  | false => rw [get?_eq_none hmap, get?_eq_none ((isMap_replace v key new).trans hmap)]

/-! ## The keys of a changed map -/

theorem keyIssues_map {α β : Type} (field : String) (f : Value → α → β) (es : List (Value × α)) :
    keyIssues field (es.map fun e => (e.1, f e.1 e.2)) = keyIssues field es := by
  rw [keyIssues, keyIssues, List.filterMap_map]
  rfl

theorem upsert_map {α β : Type} (f : α → β) (key : Value) (a : α) (es : List (Value × α)) :
    upsert key (f a) (es.map fun e => (e.1, f e.2)) = (upsert key a es).map fun e =>
    (e.1, f e.2) := by
  induction es with
  | nil => rfl
  | cons e rest ih =>
    rw [List.map_cons, upsert, upsert]
    split
    · rfl
    · rw [List.map_cons, ih]

theorem textKeyed_map {α β : Type} (f : α → β) (es : List (Value × α)) :
    textKeyed (es.map fun e => (e.1, f e.2)) = (textKeyed es).map fun e => (e.1, f e.2) := by
  have hfold : ∀ done : List (Value × α),
      (es.map fun e => (e.1, f e.2)).foldl (fun es e => upsert e.1.decoded e.2 es)
          (done.map fun e => (e.1, f e.2)) =
        (es.foldl (fun es e => upsert e.1.decoded e.2 es) done).map fun e => (e.1, f e.2) := by
    induction es with
    | nil => exact fun done => rfl
    | cons e rest ih =>
      intro done
      have hstep := upsert_map f e.1.decoded e.2 done
      rw [List.map_cons, List.foldl_cons, List.foldl_cons, ← ih, ← hstep]
  have hany : ((es.map fun e => (e.1, f e.2)).any fun e => e.1.isBytes) =
      es.any fun e => e.1.isBytes := List.any_map
  rw [textKeyed, textKeyed, hany]
  split
  · exact hfold []
  · rfl

/-- The entries under texts are changed as the entries are. -/
theorem named_map {α β : Type} (f : α → β) (es : List (Value × α)) :
    named (es.map fun e => (e.1, f e.2)) = (named es).map fun e => (e.1, f e.2) := by
  rw [named, named, textKeyed_map, List.filterMap_map, List.map_filterMap]
  refine congrArg (List.filterMap · _) (funext fun e => ?_)
  rw [Option.map_map]
  rfl

/-- Replacing a field adds nothing that is wrong with the keys. -/
theorem keyIssues_replace {v : Value} (h : v.isMap = true) {field : String}
    (hnone : keyIssues field v.entries = []) (key : String) (new : Option Value) :
    keyIssues field (v.replace key new).entries = [] := by
  rw [keyIssues, List.filterMap_eq_nil_iff] at hnone ⊢
  intro e he
  rw [entries_replace h] at he
  rcases List.mem_append.1 he with he | he
  · exact hnone e (List.mem_filter.1 he).1
  · obtain ⟨w, -, rfl⟩ := List.mem_map.1 he
    rfl

end Value

end TypedClients
