import TypedClients.Yaml.ScalarText

/-!
# Tokens of a YAML text

A YAML text is cut into tokens with its indentation made explicit: collections in block style
begin and end with tokens of their own. Whether a scalar is a key is only known when its colon
comes, so the place of everything that might be a key is remembered, and the tokens that
announce a key are put in there afterwards.

A text that is malformed at a token has no tokens. If reading a token fails for another
reason, the tokens before it stand, because what they say may be refused first.
-/

namespace TypedClients.Yaml

/-- What a directive says. -/
inductive Directive
  | version (major : Nat)
  | tag (handle expansion : String)
  | other
  deriving DecidableEq, Repr

/-- A token. -/
inductive Token
  | directive (d : Directive)
  | documentStart
  | documentEnd
  | streamEnd
  | blockSequenceStart
  | blockMappingStart
  | blockEnd
  | flowSequenceStart
  | flowSequenceEnd
  | flowMappingStart
  | flowMappingEnd
  | blockEntry
  | flowEntry
  | key
  | value
  | alias (name : String)
  | anchor (name : String)
  | tag (handle : Option String) (suffix : String)
  | scalar (text : String) (plain : Bool)
  deriving DecidableEq, Repr

/-- The tokens of a text, up to the place where reading them fails, and what asking for one
more gives. -/
structure Tokens where
  list : List Token
  ending : Refusal

/-! ## Parts of tokens -/

/-- The name of an anchor or an alias, from its indicator on. -/
def anchorName (c : Cursor) : Except Refusal (String × Cursor) :=
  let (name, c) := c.step.takeWhile isWordChar
  if name.isEmpty then refuse
  else if isBlankBreakOrEnd c.head || c.head ∈ ['?', ':', ',', ']', '\x7d', '%', '@', '\x60'] then
    .ok (String.ofList name, c)
  else refuse

/-- The handle of a tag. -/
def tagHandle (c : Cursor) : Except Refusal (String × Cursor) :=
  if c.head ≠ '!' then refuse
  else if c.peek 1 = ' ' then .ok ("!", c.step)
  else
    let (name, after) := c.step.takeWhile isWordChar
    if after.head = '!' then .ok (String.ofList ('!' :: name ++ ['!']), after.step) else refuse

/-- Whether a character may occur in the suffix of a tag. -/
def isUriChar (c : Char) : Bool :=
  Text.isAsciiLetter c || Text.isAsciiDigit c ||
    c ∈ ['-', ';', '/', '?', ':', '@', '&', '=', '+', '$', ',', '_', '.', '!', '~',
      '*', '\x27', '(', ')', '[', ']', '%']

/-- The bytes of a run of percent escapes. -/
def uriEscapes : Nat → List UInt8 → Cursor → Except Refusal (List UInt8 × Cursor)
  | 0, done, c => .ok (done, c)
  | allowance + 1, done, c =>
    if c.head ≠ '%' then .ok (done, c)
    else match Text.hexValue? (c.peek 1), Text.hexValue? (c.peek 2) with
      | some a, some b => uriEscapes allowance (done ++ [UInt8.ofNat (16 * a + b)]) (c.advance 3)
      | _, _ => refuse

/-- The suffix of a tag, with escapes replaced. -/
def tagSuffix : Nat → List Char → Cursor → Except Refusal (String × Cursor)
  | 0, _, _ => refuse
  | allowance + 1, done, c =>
    if c.head = '%' then do
      let (bytes, c) ← uriEscapes (c.rest.length + 1) [] c
      match String.fromUTF8? ⟨bytes.toArray⟩ with
      | some s => tagSuffix allowance (done ++ s.toList) c
      | none => refuse
    else
      let (run, after) := c.takeWhile fun ch => isUriChar ch && ch ≠ '%'
      if run.isEmpty then if done.isEmpty then refuse else .ok (String.ofList done, c)
      else tagSuffix allowance (done ++ run) after

/-- Whether a handle is written before the blank that ends a tag. -/
def hasHandle (c : Cursor) : Bool :=
  (c.step.rest.takeWhile fun ch => !isSpaceBreakOrEnd ch).contains '!'

/-- A tag, from its indicator on. -/
def tagToken (c : Cursor) : Except Refusal (Token × Cursor) := do
  let room := c.rest.length + 1
  let (token, c) ←
    if c.peek 1 = '<' then do
      let (suffix, c) ← tagSuffix room [] (c.advance 2)
      if c.head ≠ '>' then refuse
      pure (Token.tag none suffix, c.step)
    else if isBlankBreakOrEnd (c.peek 1) then pure (Token.tag none "!", c.step)
    else if hasHandle c then do
      let (handle, c) ← tagHandle c
      let (suffix, c) ← tagSuffix room [] c
      pure (Token.tag (some handle) suffix, c)
    else do
      let (suffix, c) ← tagSuffix room [] c.step
      pure (Token.tag (some "!") suffix, c)
  if isSpaceBreakOrEnd c.head then return (token, c) else refuse

/-- A run of digits as a number. -/
def number (c : Cursor) : Except Refusal (Nat × Cursor) :=
  let (ds, c) := c.takeWhile Text.isAsciiDigit
  if ds.isEmpty then refuse
  else if ds.length > Number.maxDigits then .error (.mishap .wrongValue)
  else .ok (Number.value ds, c)

/-- A directive, from its indicator on. -/
def directive (c : Cursor) : Except Refusal (Directive × Cursor) := do
  let (name, c) := c.step.takeWhile isWordChar
  if name.isEmpty || !isSpaceBreakOrEnd c.head then refuse
  let (d, c) ←
    if name = "YAML".toList then do
      let (major, c) ← number c.skipSpaces
      if c.head ≠ '.' then refuse
      let (_, c) ← number c.step
      if !isSpaceBreakOrEnd c.head then refuse
      pure (Directive.version major, c)
    else if name = "TAG".toList then do
      let (handle, c) ← tagHandle c.skipSpaces
      if c.head ≠ ' ' then refuse
      let (expansion, c) ← tagSuffix (c.rest.length + 1) [] c.skipSpaces
      if !isSpaceBreakOrEnd c.head then refuse
      pure (Directive.tag handle expansion, c)
    else pure (Directive.other, c.skipWhile (!isBreak ·))
  return (d, ← restOfLine c)

/-! ## The state of the scanner -/

/-- The place of something that will be a key if a colon follows. -/
structure PossibleKey where
  position : Nat
  required : Bool
  index : Nat
  line : Nat
  column : Nat

/-- What is known after part of a text: the tokens so far, the open flow collections and block
indentations, and what might still become a key at each flow level. -/
structure Scanner where
  cursor : Cursor
  tokens : Array Token
  flowLevel : Nat
  indent : Int
  indents : List Int
  keyAllowed : Bool
  possible : List (Nat × PossibleKey)

namespace Scanner

/-- Nothing has been read. -/
def start (text : List Char) : Scanner :=
  ⟨.start text, #[], 0, -1, [], true, []⟩

/-- Whether a flow collection is open. -/
def inFlow (s : Scanner) : Bool := s.flowLevel ≠ 0

/-- One more token at the end. -/
def push (s : Scanner) (t : Token) : Scanner := { s with tokens := s.tokens.push t }

/-- A token at the end and the cursor after it. -/
def emit (s : Scanner) (t : Token) (c : Cursor) : Scanner := { s.push t with cursor := c }

/-- A token put in at an earlier place. -/
def insertAt (s : Scanner) (position : Nat) (t : Token) : Scanner :=
  { s with tokens := (s.tokens.extract 0 position).push t ++
    s.tokens.extract position s.tokens.size }

/-- Gives up the possible key of the current level; one that has to be a key is refused. -/
def dropPossible (s : Scanner) : Except Refusal Scanner :=
  if s.possible.any fun (level, k) => level = s.flowLevel && k.required then refuse
  else .ok { s with possible := s.possible.filter (·.1 ≠ s.flowLevel) }

/-- Gives up the possible keys that can no longer be keys: keys stay on one line and are not
longer than 1024 characters. -/
def dropStale (s : Scanner) : Except Refusal Scanner :=
  let isStale (k : PossibleKey) : Bool :=
    k.line ≠ s.cursor.line || 1024 < s.cursor.index - k.index
  if s.possible.any fun (_, k) => isStale k && k.required then refuse
  else .ok { s with possible := s.possible.filter fun (_, k) => !isStale k }

/-- Notes that what comes next may be a key. -/
def notePossible (s : Scanner) : Except Refusal Scanner := do
  if !s.keyAllowed then return s
  else
    let c := s.cursor
    let key : PossibleKey :=
      ⟨s.tokens.size, !s.inFlow && s.indent = c.column, c.index, c.line, c.column⟩
    let s ← s.dropPossible
    return { s with possible := (s.flowLevel, key) :: s.possible }

/-- Closes the block collections that are indented more deeply than a column. -/
def unwind (column : Int) (s : Scanner) : Scanner :=
  if s.inFlow then s
  else
    let closing := (s.indent :: s.indents).takeWhile (column < ·)
    match (s.indent :: s.indents).drop closing.length with
    | indent :: indents =>
      { s with
        indent, indents
        tokens := closing.foldl (fun ts _ => ts.push .blockEnd) s.tokens }
    | [] => s

/-- Opens a block collection at a column if it is deeper than the current one, with a token
put in at a position. -/
def openBlock (s : Scanner) (column position : Nat) (t : Token) : Scanner :=
  if s.indent < column then
    { s.insertAt position t with indent := column, indents := s.indent :: s.indents }
  else s

/-! ## Reading one token -/

/-- Passes over spaces, comments and line ends. -/
def skipToToken : Nat → Scanner → Scanner
  | 0, s => s
  | allowance + 1, s =>
    let c := s.cursor
    let c := if c.index = 0 && c.head = byteOrderMark then c.step else c
    let c := c.skipSpaces.skipComment
    if isBreak c.head then
      skipToToken allowance
        { s with cursor := c.lineBreak.2, keyAllowed := s.keyAllowed || !s.inFlow }
    else { s with cursor := c }

/-- Ends all block collections before something at document level. -/
def toDocumentLevel (s : Scanner) : Except Refusal Scanner := do
  let s ← (s.unwind (-1)).dropPossible
  return { s with keyAllowed := false }

/-- The start of a flow collection. -/
def flowStart (s : Scanner) (t : Token) : Except Refusal Scanner := do
  let s ← s.notePossible
  return { s.emit t s.cursor.step with flowLevel := s.flowLevel + 1, keyAllowed := true }

/-- The end of a flow collection, which has to be open. -/
def flowEnd (s : Scanner) (t : Token) : Except Refusal Scanner := do
  let s ← s.dropPossible
  if s.inFlow then
    return { s.emit t s.cursor.step with flowLevel := s.flowLevel - 1, keyAllowed := false }
  else refuse

/-- The separator of a flow collection. -/
def flowEntry (s : Scanner) : Except Refusal Scanner := do
  let s ← s.dropPossible
  return { s.emit .flowEntry s.cursor.step with keyAllowed := true }

/-- The indicator of a block sequence item or of an explicit key. -/
def blockIndicator (s : Scanner) (opening t : Token) (keyAllowed : Bool) :
    Except Refusal Scanner := do
  if !s.inFlow && !s.keyAllowed then refuse
  let s := if s.inFlow then s else s.openBlock s.cursor.column s.tokens.size opening
  let s ← s.dropPossible
  return { s.emit t s.cursor.step with keyAllowed }

/-- The indicator of a value. If something before it may be a key, it now is one. -/
def valueIndicator (s : Scanner) : Except Refusal Scanner := do
  match s.possible.find? (·.1 = s.flowLevel) with
  | some (_, k) =>
    let s := { s with possible := s.possible.filter (·.1 ≠ s.flowLevel) }
    let s := s.insertAt k.position .key
    let s := if s.inFlow then s else s.openBlock k.column k.position .blockMappingStart
    return { s.emit .value s.cursor.step with keyAllowed := false }
  | none => s.blockIndicator .blockMappingStart .value (!s.inFlow)

/-- Something that may be a key, read by a function. -/
def possibleKey (s : Scanner) (read : Cursor → Except Refusal (Token × Cursor)) :
    Except Refusal Scanner := do
  let s ← s.notePossible
  let (t, c) ← read s.cursor
  return { s.emit t c with keyAllowed := false }

/-- A plain scalar. After one that ended with a line, a key may come. -/
def plainScalar (s : Scanner) : Except Refusal Scanner := do
  let s ← s.notePossible
  let (text, broke, c) :=
    plain s.inFlow (s.indent + 1) (s.cursor.rest.length + 1) [] [] false s.cursor
  return { s.emit (.scalar (String.ofList text) true) c with keyAllowed := broke }

/-- A block scalar. -/
def blockScalar (s : Scanner) (fold : Bool) : Except Refusal Scanner := do
  let s ← s.dropPossible
  let (text, c) ← block fold s.indent s.cursor
  return { s.emit (.scalar (String.ofList text) false) c with keyAllowed := true }

/-- Whether a plain scalar may begin here. -/
def plainBegins (s : Scanner) : Bool :=
  let c := s.cursor.head
  let indicators : List Char :=
    ['-', '?', ':', ',', '[', ']', '\x7b', '\x7d', '#', '&', '*', '!', '|', '>',
      '\x27', '\x22', '%', '@', '\x60']
  !(isBlankBreakOrEnd c || c ∈ indicators) ||
    (!isBlankBreakOrEnd (s.cursor.peek 1) &&
      (c = '-' || (!s.inFlow && (c = '?' || c = ':'))))

/-- Reads the next token; `none` in the second part says that more may follow. -/
def next (s : Scanner) : Except Refusal (Scanner × Bool) := do
  let s := s.skipToToken (s.cursor.rest.length + 1)
  let s ← s.dropStale
  let s := s.unwind s.cursor.column
  let c := s.cursor
  let blankNext := isBlankBreakOrEnd (c.peek 1)
  let goOn (s : Scanner) : Scanner × Bool := (s, true)
  if c.rest.isEmpty then
    let s ← s.toDocumentLevel
    return (s.push .streamEnd, false)
  else if c.column = 0 && c.head = '%' then
    let s ← s.toDocumentLevel
    let (d, c) ← directive c
    return goOn (s.emit (.directive d) c)
  else if c.column = 0 && c.atDocumentMark "---" then
    return goOn ((← s.toDocumentLevel).emit .documentStart (c.advance 3))
  else if c.column = 0 && c.atDocumentMark "..." then
    return goOn ((← s.toDocumentLevel).emit .documentEnd (c.advance 3))
  else match c.head with
    | '[' => goOn <$> s.flowStart .flowSequenceStart
    | '\x7b' => goOn <$> s.flowStart .flowMappingStart
    | ']' => goOn <$> s.flowEnd .flowSequenceEnd
    | '\x7d' => goOn <$> s.flowEnd .flowMappingEnd
    | ',' => goOn <$> s.flowEntry
    | '*' => goOn <$> s.possibleKey fun c => do
      let (name, c) ← anchorName c
      return (.alias name, c)
    | '&' => goOn <$> s.possibleKey fun c => do
      let (name, c) ← anchorName c
      return (.anchor name, c)
    | '!' => goOn <$> s.possibleKey tagToken
    | '\x27' => goOn <$> s.possibleKey fun c => do
      let (text, c) ← quoted false c
      return (.scalar (String.ofList text) false, c)
    | '\x22' => goOn <$> s.possibleKey fun c => do
      let (text, c) ← quoted true c
      return (.scalar (String.ofList text) false, c)
    | ch =>
      if ch = '-' && blankNext then goOn <$> s.blockIndicator .blockSequenceStart .blockEntry true
      else if ch = '?' && (s.inFlow || blankNext) then
        goOn <$> s.blockIndicator .blockMappingStart .key (!s.inFlow)
      else if ch = ':' && (s.inFlow || blankNext) then goOn <$> s.valueIndicator
      else if ch = '|' && !s.inFlow then goOn <$> s.blockScalar false
      else if ch = '>' && !s.inFlow then goOn <$> s.blockScalar true
      else if s.plainBegins then goOn <$> s.plainScalar
      else refuse

/-- How many tokens no later colon can announce as a key any more. -/
def settled (s : Scanner) : Nat :=
  (s.possible.map fun (_, k) => k.position).foldl min s.tokens.size

/-- Reads the tokens that are left. -/
def run : Nat → Scanner → Except Refusal Tokens
  | 0, _ => refuse
  | allowance + 1, s =>
    match s.next with
    | .ok (s, true) => run allowance s
    | .ok (s, false) => .ok ⟨s.tokens.toList, .malformed⟩
    | .error .malformed => refuse
    | .error (.mishap m) => do
      let s ← s.dropStale
      return ⟨s.tokens.toList.take s.settled, .mishap m⟩

end Scanner

/-- The tokens of a text. -/
def Tokens.ofText (text : List Char) : Except Refusal Tokens :=
  if text.all isReadable then (Scanner.start text).run (2 * text.length + 2) else refuse

end TypedClients.Yaml
