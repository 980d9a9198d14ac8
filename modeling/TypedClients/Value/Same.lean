import TypedClients.Value.Basic
import TypedClients.Number.Binary

/-!
# When two values are the same key

Keys are compared by value across number kinds: `1`, `1.0` and `true` are one key, `1` and
`"1"` are two. The value that is no number is one key, and times with an offset are one key if
they are the same instant. Collections cannot be keys; `isKey` tells which values can.

* `same_str`: two strings are the same key exactly when they are equal.
-/

namespace TypedClients

namespace Value

/-- The integer a value counts as, for numbers without a fractional part and for truth values. -/
def wholeNumber? : Value → Option Int
  | bool b => some (if b then 1 else 0)
  | int i => some i
  | float x => (Number.FloatValue.ofFloat x).toInt?
  | _ => none

/-- Whether two scalar values are the same key. -/
def same (a b : Value) : Bool :=
  match a, b with
  | null, null => true
  | str s, str t => s == t
  | bytes s, bytes t => s == t
  | moment m, moment n => m.same n
  | float x, float y => x == y || (x.isNaN && y.isNaN)
  | _, _ =>
    match a.wholeNumber?, b.wholeNumber? with
    | some i, some j => i == j
    | _, _ => false

/-- Whether a value can be a key of a map. -/
def isKey : Value → Bool
  | list _ | set _ | map _ | knot _ _ | endless => false
  | _ => true

/-- Stores a value under a key: in place if the key is there already, at the end otherwise.
The key that came first is kept. -/
def upsert {α : Type} (key : Value) (value : α) : List (Value × α) → List (Value × α)
  | [] => [(key, value)]
  | (k, v) :: rest =>
    if k.same key then (k, value) :: rest else (k, v) :: upsert key value rest

@[simp] theorem same_str (s t : String) : same (str s) (str t) = (s == t) := rfl

end Value

end TypedClients
