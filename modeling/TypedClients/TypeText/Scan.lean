/-!
# Scanning type expressions

A type expression is scanned from the left, keeping track of quotes and of bracket depth. A
character outside quotes *stands at* the depth that encloses it: a bracket stands at the depth
outside of the pair it belongs to. Characters inside quotes, and the quotes themselves, stand
nowhere.

Everything that looks at a written type looks at it this way: whether a union or an
intersection is its outermost operator, where to split it, whether it is a single object
literal.

* `splitFrom_ne_nil`: splitting gives at least one piece.

Mirrors `_scan`, `_top_level_chars`, `has_top_level_operator`, `split_top_level` and
`is_object_literal`. The loop of `_scan` carries a depth and an open quote, which are a `Scan`
here; `next` is one turn of it.
-/

namespace TypedClients.TypeText

/-- What is known about the text before a place: the quote that is open, whether the next
character is escaped, and how many brackets are open. -/
structure Scan where
  quote : Option Char
  escaped : Bool
  depth : Int
  deriving DecidableEq, Repr

/-- Nothing is open. -/
def Scan.start : Scan := ⟨none, false, 0⟩

/-- Whether a character opens a bracket. -/
def isOpener (c : Char) : Bool := c = '(' || c = '[' || c = '\x7b' || c = '<'

/-- Whether a character closes a bracket. -/
def isCloser (c : Char) : Bool := c = ')' || c = ']' || c = '\x7d' || c = '>'

/-- Whether a character opens or closes a quoted part. -/
def isQuote (c : Char) : Bool := c = '\x27' || c = '\x22'

/-- The depth at which a character stands, if it is outside quotes. -/
def Scan.standing (s : Scan) (c : Char) : Option Int :=
  match s.quote with
  | some _ => none
  | none => if isQuote c then none else some (if isCloser c then s.depth - 1 else s.depth)

/-- What is known after one more character. -/
def Scan.next (s : Scan) (c : Char) : Scan :=
  match s.quote with
  | some q =>
    if s.escaped then { s with escaped := false }
    else if c = '\\' then { s with escaped := true }
    else if c = q then { s with quote := none }
    else s
  | none =>
    if isQuote c then { s with quote := some c }
    else if isOpener c then { s with depth := s.depth + 1 }
    else if isCloser c then { s with depth := s.depth - 1 }
    else s

/-- The characters outside quotes, each with the depth at which it stands. -/
def scanFrom (s : Scan) : List Char → List (Char × Int)
  | [] => []
  | c :: rest =>
    match s.standing c with
    | some d => (c, d) :: scanFrom (s.next c) rest
    | none => scanFrom (s.next c) rest

/-- The characters of a text outside quotes, each with the depth at which it stands (`_scan`). -/
def scan (text : List Char) : List (Char × Int) := scanFrom .start text

/-- What is known after a text. -/
def Scan.after (s : Scan) (text : List Char) : Scan := text.foldl Scan.next s

/-- The characters of a text outside quotes and brackets, brackets left out
(`_top_level_chars`). -/
def topLevel (text : List Char) : List Char :=
  (scan text).filterMap fun (c, d) => if d = 0 ∧ !isOpener c ∧ !isCloser c then some c else none

/-- Whether the outermost operator of a text is a union or an intersection
(`has_top_level_operator`). -/
def hasTopLevelOperator (text : List Char) : Bool :=
  (topLevel text).contains '|' || (topLevel text).contains '&'

/-- The pieces of a text between the places where an operator stands at depth zero. -/
def splitFrom (operator : Char) (s : Scan) : List Char → List (List Char)
  | [] => [[]]
  | c :: rest =>
    if c = operator ∧ s.standing c = some 0 then [] :: splitFrom operator (s.next c) rest
    else match splitFrom operator (s.next c) rest with
      | [] => [[c]]
      | piece :: pieces => (c :: piece) :: pieces

/-- The pieces of a text between the places where an operator stands outside brackets and
quotes (`split_top_level`). -/
def splitTopLevel (operator : Char) (text : List Char) : List (List Char) :=
  splitFrom operator .start text

/-- Whether the first brace that closes at depth zero is the last character. -/
def closesLast (s : Scan) : List Char → Bool
  | [] => false
  | c :: rest =>
    if c = '\x7d' ∧ s.standing c = some 0 then rest.isEmpty else closesLast (s.next c) rest

/-- Whether a text is exactly one object literal (`is_object_literal`). -/
def isObjectLiteral (text : List Char) : Bool :=
  text.head? = some '\x7b' && text.getLast? = some '\x7d' && closesLast .start text

theorem splitFrom_ne_nil (operator : Char) (s : Scan) (text : List Char) :
    splitFrom operator s text ≠ [] := by
  cases text with
  | nil => simp [splitFrom]
  | cons c r =>
    simp only [splitFrom]
    split
    · simp
    · split <;> simp

end TypedClients.TypeText
