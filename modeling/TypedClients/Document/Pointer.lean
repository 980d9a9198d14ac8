import TypedClients.Report.Failure
import TypedClients.Text.Digit
import TypedClients.Text.Pieces

/-!
# Pointers into a document

A pointer `#/a/b` names the value reached from the root by the steps `a` and `b`. In a step
`~1` stands for a slash and `~0` for a tilde; on a list a step is a number.

* `unescape_escape`: unescaping undoes escaping.

Mirrors `resolve_pointer`. `follow` is the loop of `resolve_pointer` over the segments of a
reference.
-/

namespace TypedClients.Pointer

open Text (replacePair splitAt)

/-- A step as it is meant, from the way it is written. -/
def unescape (step : List Char) : List Char :=
  replacePair '~' '0' ['~'] (replacePair '~' '1' ['/'] step)

/-- A step as it is written, from the way it is meant. -/
def escape (step : List Char) : List Char :=
  step.flatMap fun c => if c = '~' then ['~', '0'] else if c = '/' then ['~', '1'] else [c]

theorem replacePair_cons_of_ne {a b c : Char} {new s : List Char} (h : c ≠ a) :
    replacePair a b new (c :: s) = c :: replacePair a b new s := by
  cases s with
  | nil => simp [replacePair]
  | cons d r => simp [replacePair, h]

theorem replacePair_cons_cons_of_ne {a b d : Char} {new s : List Char} (h : d ≠ b) :
    replacePair a b new (a :: d :: s) = a :: replacePair a b new (d :: s) := by
  simp [replacePair, h]

theorem unescape_escape (step : List Char) : unescape (escape step) = step := by
  have slashes : ∀ s : List Char, replacePair '~' '1' ['/'] (escape s) =
      s.flatMap fun c => if c = '~' then ['~', '0'] else [c] := by
    intro s
    induction s with
    | nil => rfl
    | cons c r ih =>
      by_cases h1 : c = '~'
      · subst h1
        simp only [escape, List.flatMap_cons, if_true, List.cons_append, List.nil_append] at ih ⊢
        rw [replacePair_cons_cons_of_ne (by decide), replacePair_cons_of_ne (by decide), ih]
      · by_cases h2 : c = '/'
        · subst h2
          simp [escape, replacePair, List.flatMap_cons] at ih ⊢
          exact ih
        · simp only [escape, List.flatMap_cons, h1, h2, if_false, List.singleton_append] at ih ⊢
          rw [replacePair_cons_of_ne h1, ih]
  rw [unescape, slashes]
  induction step with
  | nil => rfl
  | cons c r ih =>
    by_cases h : c = '~'
    · subst h
      simp [replacePair, List.flatMap_cons] at ih ⊢
      exact ih
    · simp only [List.flatMap_cons, h, if_false, List.singleton_append]
      rw [replacePair_cons_of_ne h, ih]

/-- The value one step below another, if there is one. A step on a list has to be a number in
decimal digits, not too many of them; other digits are no number. -/
def step? (v : Value) (step : List Char) : Except Failure (Option Value) :=
  if v.isMap then .ok (v.get? (String.ofList step))
  else match v.items? with
  | some xs =>
    if step.isEmpty || !step.all Text.isDigit then .ok none
    else if step.length > Number.maxDigits then .error (.mishap .wrongValue)
    else match Text.decimalValue? step with
      | some n => .ok xs[n]?
      | none => .error (.mishap .wrongValue)
  | none => .ok none

/-- The value reached by steps, one after the other (the loop of `resolve_pointer`). -/
def follow : Value → List (List Char) → Except Failure (Option Value)
  | v, [] => .ok (some v)
  | v, s :: rest => do
    match ← step? v s with
    | some w => follow w rest
    | none => return none

/-- The steps of an internal reference, as they are meant. -/
def steps? (ref : String) : Option (List (List Char)) :=
  match ref.toList with
  | '#' :: '/' :: rest => some ((splitAt '/' rest).map unescape)
  | _ => none

/-- The value that an internal reference names (`resolve_pointer`). -/
def resolve (root : Value) (ref : String) : Except Failure Value :=
  match steps? ref with
  | none => .error (.refused (.unresolvedReference ref))
  | some steps => do
    match ← follow root steps with
    | some v => return v
    | none => throw (.refused (.unresolvedReference ref))

end TypedClients.Pointer
