import TypedClients.Text.Digit
import TypedClients.Text.Surrogate
import TypedClients.Yaml.Cursor

/-!
# The texts of scalars

The four ways to write a scalar: plain, in single quotes, in double quotes with escapes, and
as a block of lines. Line ends inside are folded into spaces except in a literal block. Each
function reads from a cursor and returns the text with the cursor after it; loops take an
allowance of one per character that is left.
-/

namespace TypedClients.Yaml

/-- Refuses the text. -/
def refuse {α : Type} : Except Refusal α := .error .malformed

/-! ## Folding -/

/-- The text that one line end and the empty lines after it stand for. -/
def folded (first : List Char) (breaks : List Char) : List Char :=
  if first ≠ ['\n'] then first ++ breaks
  else if breaks.isEmpty then [' '] else breaks

/-! ## Quoted scalars -/

/-- The line ends from here on, with blanks around them dropped. -/
def quotedBreaks : Nat → List Char → Cursor → Except Refusal (List Char × Cursor)
  | 0, _, _ => refuse
  | allowance + 1, done, c =>
    if c.atAnyDocumentMark then refuse
    else
      let c := c.skipWhile fun ch => ch = ' ' || ch = '\t'
      if isBreak c.head then
        let (b, c) := c.lineBreak
        quotedBreaks allowance (done ++ b) c
      else .ok (done, c)

/-- The character that a one-letter escape stands for. -/
def escaped? (c : Char) : Option Char :=
  match c with
  | '0' => some (Char.ofNat 0)
  | 'a' => some (Char.ofNat 7)
  | 'b' => some (Char.ofNat 8)
  | 't' => some '\t'
  | '\t' => some '\t'
  | 'n' => some '\n'
  | 'v' => some (Char.ofNat 11)
  | 'f' => some (Char.ofNat 12)
  | 'r' => some '\r'
  | 'e' => some (Char.ofNat 27)
  | ' ' => some ' '
  | '\x22' => some '\x22'
  | '\\' => some '\\'
  | '/' => some '/'
  | 'N' => some (Char.ofNat 0x85)
  | '_' => some (Char.ofNat 0xA0)
  | 'L' => some (Char.ofNat 0x2028)
  | 'P' => some (Char.ofNat 0x2029)
  | _ => none

/-- How many hexadecimal digits follow an escape letter. -/
def escapeWidth? (c : Char) : Option Nat :=
  match c with
  | 'x' => some 2
  | 'u' => some 4
  | 'U' => some 8
  | _ => none

/-- The value of hexadecimal digits. -/
def hexNumber? (ds : List Char) : Option Nat :=
  ds.foldlM (fun n d => (Text.hexValue? d).map (16 * n + ·)) 0

/-- What an escape in double quotes means, from the character after the backslash on;
surrogate halves are not joined. -/
def escape (c : Cursor) : Except Refusal (List Char × Cursor) :=
  match escaped? c.head with
  | some e => .ok ([e], c.step)
  | none =>
    match escapeWidth? c.head with
    | some width =>
      let ds := c.step.rest.take width
      match hexNumber? ds with
      | some n =>
        if ds.length < width then refuse
        else if Number.wordHalf ≤ n then .error (.mishap (.overflow .character))
        else if 0x10FFFF < n then .error (.mishap .wrongValue)
        else .ok ([Text.Surrogate.ofUnit n], c.step.advance width)
      | none => refuse
    | none =>
      if isBreak c.head then
        let c := c.lineBreak.2
        quotedBreaks (c.rest.length + 1) [] c
      else refuse

/-- Whether a character ends a run of ordinary characters in quotes. -/
def endsQuotedRun (c : Char) : Bool :=
  c = '\x27' || c = '\x22' || c = '\\' || isBlankBreakOrEnd c

/-- A quoted scalar from the character after its opening quote on. -/
def quotedRest (double : Bool) : Nat → List Char → Cursor → Except Refusal (List Char × Cursor)
  | 0, _, _ => refuse
  | allowance + 1, done, c =>
    let (run, c) := c.takeWhile (!endsQuotedRun ·)
    let done := done ++ run
    let ch := c.head
    if !double && ch = '\x27' && c.peek 1 = '\x27' then
      quotedRest double allowance (done ++ ['\x27']) (c.advance 2)
    else if ch = (if double then '\x22' else '\x27') then .ok (done, c.step)
    else if ch = '\x27' || ch = '\x22' || (ch = '\\' && !double) then
      quotedRest double allowance (done ++ [ch]) c.step
    else if ch = '\\' then do
      let (meant, c) ← escape c.step
      quotedRest double allowance (done ++ meant) c
    else
      let (blanks, c) := c.takeWhile fun ch => ch = ' ' || ch = '\t'
      if c.rest.isEmpty then refuse
      else if isBreak c.head then do
        let (first, c) := c.lineBreak
        let (breaks, c) ← quotedBreaks (c.rest.length + 1) [] c
        quotedRest double allowance (done ++ folded first breaks) c
      else quotedRest double allowance (done ++ blanks) c

/-- A quoted scalar from its opening quote on. -/
def quoted (double : Bool) (c : Cursor) : Except Refusal (List Char × Cursor) :=
  quotedRest double (2 * c.rest.length + 2) [] c.step

/-! ## Plain scalars -/

/-- Whether a character ends a run of a plain scalar; `next` is the one after it. -/
def endsPlainRun (inFlow : Bool) (c next : Char) : Bool :=
  isBlankBreakOrEnd c ||
    (c = ':' && (isBlankBreakOrEnd next || (inFlow && next ∈ [',', '[', ']', '\x7b', '\x7d']))) ||
    (inFlow && c ∈ [',', '?', '[', ']', '\x7b', '\x7d'])

/-- A run of a plain scalar. -/
def plainRun (inFlow : Bool) : List Char → List Char
  | [] => []
  | c :: rest =>
    if endsPlainRun inFlow c (rest.head?.getD endMark) then [] else c :: plainRun inFlow rest

/-- What separates two runs of a plain scalar. -/
structure PlainSpaces where
  /-- The text it stands for; empty if the scalar ends here. -/
  text : List Char
  /-- Whether a line ended. -/
  brokeLine : Bool

/-- The empty lines after a first line end, unless a mark between documents comes; each line
end is kept, spaces are dropped. -/
def plainBreaks : Nat → List Char → Cursor → Option (List Char) × Cursor
  | 0, done, c => (some done, c)
  | allowance + 1, done, c =>
    if c.head = ' ' then plainBreaks allowance done c.step
    else if isBreak c.head then
      let (b, c) := c.lineBreak
      if c.atAnyDocumentMark then (none, c) else plainBreaks allowance (done ++ b) c
    else (some done, c)

/-- What comes between two runs of a plain scalar. -/
def plainSpaces (c : Cursor) : PlainSpaces × Cursor :=
  let (blanks, c) := c.takeWhile (· = ' ')
  if isBreak c.head then
    let (first, c) := c.lineBreak
    if c.atAnyDocumentMark then (⟨[], true⟩, c)
    else
      match plainBreaks (c.rest.length + 1) [] c with
      | (none, c) => (⟨[], true⟩, c)
      | (some breaks, c) => (⟨folded first breaks, true⟩, c)
  else (⟨blanks, false⟩, c)

/-- A plain scalar: its text, whether it ended after a line end, and the cursor after it.
`spaces` is what came before the next run. -/
def plain (inFlow : Bool) (indent : Int) :
    Nat → List Char → List Char → Bool → Cursor → List Char × Bool × Cursor
  | 0, done, _, broke, c => (done, broke, c)
  | allowance + 1, done, spaces, broke, c =>
    if c.head = '#' then (done, broke, c)
    else
      let run := plainRun inFlow c.rest
      if run.isEmpty then (done, broke, c)
      else
        let done := done ++ spaces ++ run
        let (between, c) := plainSpaces (c.advance run.length)
        if between.text.isEmpty || c.head = '#' || (!inFlow && (c.column : Int) < indent) then
          (done, between.brokeLine, c)
        else plain inFlow indent allowance done between.text between.brokeLine c

/-! ## Block scalars -/

/-- What is kept of the line ends that end a block. -/
inductive Chomping
  | strip
  | clip
  | keep
  deriving DecidableEq, Repr

/-- The chomping that a character asks for. -/
def chomping? (c : Char) : Option Chomping :=
  if c = '+' then some .keep else if c = '-' then some .strip else none

/-- The indentation that a digit asks for; zero is refused. -/
def increment? (c : Char) : Except Refusal (Option Nat) :=
  if Text.isAsciiDigit c then
    if c = '0' then refuse else .ok (some (c.toNat - '0'.toNat))
  else .ok none

/-- The indicators of a block in either order, with the cursor after them. -/
def blockIndicators (c : Cursor) : Except Refusal ((Chomping × Option Nat) × Cursor) := do
  match chomping? c.head with
  | some chomping =>
    let c := c.step
    match ← increment? c.head with
    | some n => return ((chomping, some n), c.step)
    | none => return ((chomping, none), c)
  | none =>
    match ← increment? c.head with
    | some n =>
      let c := c.step
      match chomping? c.head with
      | some chomping => return ((chomping, some n), c.step)
      | none => return ((.clip, some n), c)
    | none => return ((.clip, none), c)

/-- The rest of a line that may hold only spaces and a comment. -/
def restOfLine (c : Cursor) : Except Refusal Cursor :=
  let c := c.skipSpaces.skipComment
  if isBreakOrEnd c.head then .ok c.lineBreak.2 else refuse

/-- The empty lines before a block, and the deepest indentation among them. -/
def blockIndentation : Nat → List Char → Nat → Cursor → List Char × Nat × Cursor
  | 0, breaks, deepest, c => (breaks, deepest, c)
  | allowance + 1, breaks, deepest, c =>
    if c.head = ' ' then
      let c := c.step
      blockIndentation allowance breaks (max deepest c.column) c
    else if isBreak c.head then
      let (b, c) := c.lineBreak
      blockIndentation allowance (breaks ++ b) deepest c
    else (breaks, deepest, c)

/-- Spaces up to an indentation. -/
def skipIndent (indent : Nat) (c : Cursor) : Cursor :=
  c.advance (min (indent - c.column) (c.rest.takeWhile (· = ' ')).length)

/-- The empty lines inside a block, and the cursor at the next line. -/
def blockBreaks (indent : Nat) : Nat → List Char → Cursor → List Char × Cursor
  | 0, done, c => (done, c)
  | allowance + 1, done, c =>
    let c := skipIndent indent c
    if isBreak c.head then
      let (b, c) := c.lineBreak
      blockBreaks indent allowance (done ++ b) c
    else (done, c)

/-- The lines of a block. `breaks` holds the empty lines before the next one; the result has
the text, the last line end and the empty lines after it. -/
def blockLines (fold : Bool) (indent : Nat) :
    Nat → List Char → List Char → List Char → Cursor → List Char × List Char × List Char × Cursor
  | 0, done, last, breaks, c => (done, last, breaks, c)
  | allowance + 1, done, last, breaks, c =>
    if c.column = indent && !c.rest.isEmpty then
      let done := done ++ breaks
      let startsInk := !(c.head = ' ' || c.head = '\t')
      let (line, c) := c.takeWhile (!isBreak ·)
      let (last, c) := c.lineBreak
      let (breaks, c) := blockBreaks indent (c.rest.length + 1) [] c
      let done := done ++ line
      if c.column = indent && !c.rest.isEmpty then
        let joined :=
          if fold && last = ['\n'] && startsInk && !(c.head = ' ' || c.head = '\t') then
            if breaks.isEmpty then [' '] else []
          else last
        blockLines fold indent allowance (done ++ joined) last breaks c
      else (done, last, breaks, c)
    else (done, last, breaks, c)

/-- A block scalar from its indicator on; `parent` is the indentation of what holds it. -/
def block (fold : Bool) (parent : Int) (c : Cursor) : Except Refusal (List Char × Cursor) := do
  let ((chomping, increment), c) ← blockIndicators c.step
  if !isSpaceBreakOrEnd c.head then refuse
  let c ← restOfLine c
  let least := (max (parent + 1) 1).toNat
  let (breaks, indent, c) : List Char × Nat × Cursor := match increment with
    | none =>
      let (breaks, deepest, c) := blockIndentation (c.rest.length + 1) [] 0 c
      (breaks, max least deepest, c)
    | some n =>
      let indent := least + n - 1
      let (breaks, c) := blockBreaks indent (c.rest.length + 1) [] c
      (breaks, indent, c)
  let (text, last, breaks, c) := blockLines fold indent (c.rest.length + 1) [] [] breaks c
  let tail := match chomping with
    | .strip => []
    | .clip => last
    | .keep => last ++ breaks
  return (text ++ tail, c)

end TypedClients.Yaml
