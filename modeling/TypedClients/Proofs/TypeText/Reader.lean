import TypedClients.Proofs.TypeText.Tree

/-!
# Reading a type expression

The ordinary grammar of type expressions as a reader by recursive descent. A union binds less
tightly than an intersection, and this less tightly than `[]` behind a type. Blanks may stand
in front of everything. What stands alone is an atom: a quoted literal, which ends at the
first quote that is not escaped, a word, or a JSON collection, of which an object is told from
an object type by the double quote right behind its brace.

The first argument of the functions that call one another bounds how deep they do so. `read`
allows four levels for each character, and no text needs more.
-/

namespace TypedClients.TypeText

open Text (isBlank trimStart)

/-! ## Parts without types inside -/

/-- Whether a character may stand in a word: a name, or a number or constant of JSON. -/
def isWordPart (c : Char) : Bool := Naming.isIdentifierPart c || c = '.' || c = '+' || c = '-'

/-- What was read with one more character in front. -/
def keep (c : Char) (r : Option (List Char × List Char)) : Option (List Char × List Char) :=
  r.map fun (text, rest) => (c :: text, rest)

/-- The inside of a quoted part, as it is written, and the text after its closing quote. -/
def readQuoted (quote : Char) : List Char → Option (List Char × List Char)
  | [] => none
  | '\\' :: c :: rest => keep '\\' (keep c (readQuoted quote rest))
  | c :: rest => if c = quote then some ([], rest) else keep c (readQuoted quote rest)

/-- The inside of a quoted part without the escaping backslashes. -/
def unescaped : List Char → List Char
  | [] => []
  | '\\' :: c :: rest => c :: unescaped rest
  | c :: rest => c :: unescaped rest

/-- The rest of a JSON collection, and the text after it. `depth` counts the collections that are
open; `quoted` says that a string is. -/
def readCollection (depth : Nat) (quoted : Bool) : List Char → Option (List Char × List Char)
  | [] => none
  | '\\' :: c :: rest => keep '\\' (keep c (readCollection depth quoted rest))
  | c :: rest =>
    if c = '\x22' then keep c (readCollection depth (!quoted) rest)
    else if quoted then keep c (readCollection depth true rest)
    else if c = '[' ∨ c = '\x7b' then keep c (readCollection (depth + 1) false rest)
    else if c = ']' ∨ c = '\x7d' then
      if depth = 1 then some ([c], rest) else keep c (readCollection (depth - 1) false rest)
    else keep c (readCollection depth false rest)

/-- A type with as many `[]` as stand behind it, and the text after them. -/
def arrays (t : TypeTree) : List Char → TypeTree × List Char
  | '[' :: ']' :: rest => arrays (.array t) rest
  | rest => (t, rest)

/-- The key of a member: a quoted literal, or what stands before the next question mark or
colon. -/
def readKey (s : List Char) : Option (String × List Char) :=
  match trimStart s with
  | [] => none
  | c :: rest =>
    if c = '\x27' ∨ c = '\x22' then
      (readQuoted c rest).map fun (text, rest) => (String.ofList (unescaped text), rest)
    else
      let isInside (c : Char) : Bool := c ≠ '?' && c ≠ ':'
      some (String.ofList ((c :: rest).takeWhile isInside), (c :: rest).dropWhile isInside)

/-- Whether a member is optional, and the text after its colon. -/
def readMark : List Char → Option (Bool × List Char)
  | '?' :: ':' :: rest => some (true, rest)
  | ':' :: rest => some (false, rest)
  | _ => none

/-- A type that a closing bracket must follow. -/
def closedBy (bracket : Char) : TypeTree × List Char → Option (TypeTree × List Char)
  | (t, rest) =>
    match trimStart rest with
    | c :: rest => if c = bracket then some (t, rest) else none
    | [] => none

/-- The name that the type of a dictionary begins with. -/
def recordName : List Char := ['R', 'e', 'c', 'o', 'r', 'd']

/-- How the type of a dictionary goes on after its name. -/
def recordOpening : List Char := ['<', 's', 't', 'r', 'i', 'n', 'g', ',']

/-- A quoted literal after its opening quote. -/
def readLiteral (quote : Char) (s : List Char) : Option (TypeTree × List Char) :=
  (readQuoted quote s).map fun (text, rest) =>
    (.atom (String.ofList (quote :: text ++ [quote])), rest)

/-- A JSON collection. -/
def readJson (s : List Char) : Option (TypeTree × List Char) :=
  (readCollection 0 false s).map fun (text, rest) => (.atom (String.ofList text), rest)

/-- A word as an atom, or the type of a dictionary, whose value type is read by `value`. -/
def ofWord (value : List Char → Option (TypeTree × List Char)) (word after : List Char) :
    Option (TypeTree × List Char) :=
  if word = [] then none
  else if word = recordName ∧ recordOpening.isPrefixOf after then
    ((value (after.drop recordOpening.length)).bind (closedBy '>')).map
      fun (t, rest) => (.record t, rest)
  else some (.atom (String.ofList word), after)

/-- An object type after its opening brace, whose members, if there are any, are read by
`members`. -/
def ofBrace (members : List Char → Option (List (String × Bool × TypeTree) × List Char))
    (s : List Char) : Option (TypeTree × List Char) :=
  match trimStart s with
  | '\x7d' :: rest => some (.object [], rest)
  | s => (members s).map fun (ms, rest) => (.object ms, rest)

/-- A type that `first` reads, and if an operator follows, with what `others` reads behind it. -/
def chain (operator : Char) (node : TypeTree → TypeTree → TypeTree)
    (first others : List Char → Option (TypeTree × List Char)) (s : List Char) :
    Option (TypeTree × List Char) := do
  let (a, rest) ← first s
  match trimStart rest with
  | [] => return (a, rest)
  | c :: after =>
    if c = operator then do
      let (b, rest) ← others after
      return (node a b, rest)
    else return (a, rest)

/-! ## Types -/

mutual

/-- A union, or what binds more tightly. -/
def readUnion : Nat → List Char → Option (TypeTree × List Char)
  | 0, _ => none
  | n + 1, s => chain '|' .union (readInter n) (readUnion n) s

/-- An intersection, or what binds more tightly. -/
def readInter : Nat → List Char → Option (TypeTree × List Char)
  | 0, _ => none
  | n + 1, s => chain '&' .inter (readPostfix n) (readInter n) s

/-- A type with `[]` behind it, any number of times. -/
def readPostfix : Nat → List Char → Option (TypeTree × List Char)
  | 0, _ => none
  | n + 1, s => do
    let (t, rest) ← readSingle n s
    return arrays t rest

/-- A type in parentheses, an atom, an object type, or the type of a dictionary. -/
def readSingle : Nat → List Char → Option (TypeTree × List Char)
  | 0, _ => none
  | n + 1, s =>
    match trimStart s with
    | [] => none
    | c :: rest =>
      if c = '(' then (readUnion n rest).bind (closedBy ')')
      else if c = '\x27' ∨ c = '\x22' then readLiteral c rest
      else if c = '[' ∨ c = '\x7b' ∧ rest.head? = some '\x22' then readJson (c :: rest)
      else if c = '\x7b' then ofBrace (readMembers n) rest
      else ofWord (readUnion n) ((c :: rest).takeWhile isWordPart)
        ((c :: rest).dropWhile isWordPart)

/-- The members of an object type, and the text after its closing brace. -/
def readMembers : Nat → List Char → Option (List (String × Bool × TypeTree) × List Char)
  | 0, _ => none
  | n + 1, s => do
    let (key, rest) ← readKey s
    let (optional, rest) ← readMark rest
    let (t, rest) ← readUnion n rest
    match trimStart rest with
    | ';' :: rest => do
      let (members, rest) ← readMembers n rest
      return ((key, optional, t) :: members, rest)
    | '\x7d' :: rest => return ([(key, optional, t)], rest)
    | _ => none

end

/-- The type that a text is, read from its first to its last character. -/
def read (text : String) : Option TypeTree :=
  match readUnion (4 * text.toList.length + 3) text.toList with
  | some (t, rest) => if trimStart rest = [] then some t else none
  | none => none

end TypedClients.TypeText
