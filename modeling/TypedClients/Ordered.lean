/-!
# Tables in insertion order

A table from names to values that remembers in which order the names came. Storing under a
name that is there already keeps its place.

* `get?_put`: after storing, the name has the new value and all others keep theirs.
-/

namespace TypedClients

/-- A table from names to values, in insertion order. -/
abbrev Ordered (α : Type) := List (String × α)

namespace Ordered

variable {α : Type}

/-- The value under a name. -/
def get? (t : Ordered α) (name : String) : Option α := (t.find? (·.1 = name)).map Prod.snd

/-- Whether a name is in the table. -/
def has (t : Ordered α) (name : String) : Bool := (t.get? name).isSome

/-- Stores a value under a name. -/
def put : Ordered α → String → α → Ordered α
  | [], name, a => [(name, a)]
  | (n, b) :: rest, name, a => if n = name then (n, a) :: rest else (n, b) :: put rest name a

/-- The names, in order. -/
def keys (t : Ordered α) : List String := t.map Prod.fst

theorem get?_put (t : Ordered α) (name other : String) (a : α) :
    (t.put name a).get? other = if other = name then some a else t.get? other := by
  induction t with
  | nil => by_cases h : other = name <;> simp [put, get?, h, eq_comm]
  | cons e rest ih =>
    obtain ⟨n, b⟩ := e
    by_cases hn : n = name
    · by_cases h : other = name
      · simp [put, get?, hn, h]
      · have : name ≠ other := fun e => h e.symm
        simp [put, get?, hn, h, this]
    · by_cases ho : n = other
      · have : other ≠ name := fun e => hn (ho.trans e)
        simp [put, get?, ho, this]
      · have ih' := ih
        simp only [get?] at ih' ⊢
        simp [put, hn, ho, ih']

end Ordered

end TypedClients
