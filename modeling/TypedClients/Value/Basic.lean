import TypedClients.Value.Moment

/-!
# Decoded document values

`Value` is what a JSON or YAML text stands for. Maps keep their entries in document order,
because the order of paths, properties and definitions decides the order of everything
generated from them; keys are values too, since YAML allows keys that are no strings.

A YAML collection may contain itself. Such a collection is a `knot`: wherever it occurs it
carries the same number, and what is inside of it is written out again, down to a depth at
which it is `endless`.

* `sizeOf_get?_lt`, `sizeOf_items?_lt`: a field or an item is smaller than the collection that
  holds it, so recursion through `get?` and `items?` ends.
-/

namespace TypedClients

/-- A decoded value. Integers are unbounded; entries of a map are in document order. -/
inductive Value where
  | null
  | bool (b : Bool)
  | int (i : Int)
  | float (x : Float)
  | str (s : String)
  | bytes (bs : List UInt8)
  | list (items : List Value)
  /-- A key with its value, as an item of a list of pairs. -/
  | pair (key value : Value)
  | set (members : List Value)
  | map (entries : List (Value × Value))
  | moment (m : Moment)
  /-- A collection that contains itself, or leads to one that does. -/
  | knot (id : Nat) (inside : Value)
  /-- What lies deeper inside a knot than anything looks. -/
  | endless
  deriving Inhabited

namespace Value

/-- Whether a value is the given string. -/
def isStr (v : Value) (s : String) : Bool :=
  match v with
  | str t => t == s
  | _ => false

/-- The string that a value is, if it is one. -/
def str? : Value → Option String
  | str s => some s
  | _ => none

/-- The entries of a map; a value of another kind has none. -/
def entries : Value → List (Value × Value)
  | map es => es
  | knot _ v => v.entries
  | _ => []

/-- The items of a list, if a value is one. -/
def items? : Value → Option (List Value)
  | list xs => some xs
  | knot _ v => v.items?
  | _ => none

/-- Whether a value is a map. -/
def isMap : Value → Bool
  | map _ => true
  | knot _ v => v.isMap
  | _ => false

/-- The entries of a map, if a value is one. -/
def entries? (v : Value) : Option (List (Value × Value)) :=
  if v.isMap then some v.entries else none

/-- The value that a map holds under a string key. -/
def get? (v : Value) (key : String) : Option Value :=
  (v.entries.find? fun e => e.1.isStr key).map Prod.snd

/-- Whether a map has a string key. -/
def has (v : Value) (key : String) : Bool := (v.get? key).isSome

/-- Whether a value counts as given: it is not null, false, zero, or an empty text or
collection. -/
def isGiven : Value → Bool
  | null => false
  | bool b => b
  | int i => i != 0
  | float x => !(x == 0.0)
  | str s => !s.isEmpty
  | bytes bs => !bs.isEmpty
  | list xs => !xs.isEmpty
  | pair _ _ => true
  | set xs => !xs.isEmpty
  | map es => !es.isEmpty
  | moment _ => true
  | knot _ v => v.isGiven
  | endless => true

/-- Whether a value lies deeper inside a knot than anything looks. -/
def isEndless : Value → Bool
  | endless => true
  | _ => false

/-- Whether a field is present and holds `true` itself. -/
def isFlagged (v : Value) (key : String) : Bool :=
  match v.get? key with
  | some (bool b) => b
  | _ => false

/-- The name of the kind of a value, as error messages give it. -/
def kindName : Value → String
  | null => "NoneType"
  | bool _ => "bool"
  | int _ => "int"
  | float _ => "float"
  | str _ => "str"
  | bytes _ => "bytes"
  | list _ => "list"
  | pair _ _ => "tuple"
  | set _ => "set"
  | map _ => "dict"
  | moment m => if m.clock.isSome then "datetime" else "date"
  | knot _ v => v.kindName
  | endless => "list"

/-! ## Fields and items are smaller than what holds them -/

theorem sizeOf_lt_of_mem_entries {v : Value} {e : Value × Value} (h : e ∈ v.entries) :
    sizeOf e.2 < sizeOf v := by
  fun_induction entries v with
  | case1 es =>
    have := List.sizeOf_lt_of_mem h
    obtain ⟨a, b⟩ := e
    simp only [Prod.mk.sizeOf_spec, map.sizeOf_spec] at this ⊢
    omega
  | case2 id v ih =>
    have := ih h
    simp only [knot.sizeOf_spec]
    omega
  | case3 => simp at h

theorem sizeOf_get?_lt {v w : Value} {key : String} (h : v.get? key = some w) :
    sizeOf w < sizeOf v := by
  obtain ⟨e, he, rfl⟩ := Option.map_eq_some_iff.1 h
  exact sizeOf_lt_of_mem_entries (List.mem_of_find?_eq_some he)

theorem sizeOf_entries_lt {v : Value} (h : v.isMap) : sizeOf v.entries < sizeOf v := by
  fun_induction entries v with
  | case1 es => simp only [map.sizeOf_spec]; omega
  | case2 id v ih =>
    have := ih (by simpa [isMap] using h)
    simp only [knot.sizeOf_spec]
    omega
  | case3 v hm hk => cases v <;> simp_all [isMap]

theorem sizeOf_entries?_lt {v : Value} {es : List (Value × Value)} (h : v.entries? = some es) :
    sizeOf es < sizeOf v := by
  unfold entries? at h
  split at h
  next hm =>
    cases h
    exact sizeOf_entries_lt hm
  next => cases h

theorem sizeOf_items?_lt {v : Value} {xs : List Value} (h : v.items? = some xs) :
    sizeOf xs < sizeOf v := by
  fun_induction items? v with
  | case1 ys =>
    cases h
    simp only [list.sizeOf_spec]
    omega
  | case2 id v ih =>
    have := ih h
    simp only [knot.sizeOf_spec]
    omega
  | case3 => cases h

end Value

end TypedClients
