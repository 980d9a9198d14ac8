import TypedClients.Naming.Identifier
import TypedClients.Text.Sorted
import TypedClients.Types.Table

/-!
# Type names in use

The names of generated types that a type expression mentions: the identifiers outside quoted parts
that are names in the table. A quote that is never closed quotes nothing.

* `length_afterQuote?`: what follows a quoted part is shorter than what follows its opening quote.

Mirrors `referenced_type_names`. The two patterns of `referenced_type_names`, one that removes
quoted parts and one that finds identifiers, are scans of their own.
-/

namespace TypedClients.Client

/-- The text after a quoted part, from the character after its opening quote on; none if the
part has no end. A backslash takes the next character along, which must not be a line feed. -/
def afterQuote? (quote : Char) : List Char → Option (List Char)
  | [] => none
  | '\\' :: c :: rest => if c = '\n' then none else afterQuote? quote rest
  | c :: rest => if c = quote then some rest else if c = '\\' then none else afterQuote? quote rest

theorem length_afterQuote? {quote : Char} {s rest : List Char}
    (h : afterQuote? quote s = some rest) : rest.length < s.length := by
  fun_induction afterQuote? quote s with
  | case1 => cases h
  | case2 => cases h
  | case3 c r _ ih => have := ih h; simp only [List.length_cons]; omega
  | case4 r => cases h; simp
  | case5 => cases h
  | case6 c r _ _ _ ih => have := ih h; simp only [List.length_cons]; omega

/-- A text without its quoted parts (the first pattern of `referenced_type_names`). -/
def unquoted (s : List Char) : List Char :=
  match s with
  | [] => []
  | c :: rest =>
    if c = '\x27' ∨ c = '\x22' then
      match _h : afterQuote? c rest with
      | some after => unquoted after
      | none => c :: unquoted rest
    else c :: unquoted rest
termination_by s.length
decreasing_by
  · have := length_afterQuote? _h
    simp only [List.length_cons]
    omega
  · simp
  · simp

/-- The identifiers of a text; `current` holds the one being read, last character first. -/
def identifiersFrom (current : List Char) : List Char → List String
  | [] => if current.isEmpty then [] else [String.ofList current.reverse]
  | c :: rest =>
    if current.isEmpty then
      if Naming.isIdentifierStart c then identifiersFrom [c] rest else identifiersFrom [] rest
    else if Naming.isIdentifierPart c then identifiersFrom (c :: current) rest
    else String.ofList current.reverse :: identifiersFrom [] rest

/-- The identifiers of a text outside quoted parts (the second pattern of
`referenced_type_names`). -/
def identifiers (s : String) : List String := identifiersFrom [] (unquoted s.toList)

/-- The names of generated types that a type expression mentions (`referenced_type_names`). -/
def mentions (t : TypeTable) (text : String) : List String := (identifiers text).filter t.contains

end TypedClients.Client
