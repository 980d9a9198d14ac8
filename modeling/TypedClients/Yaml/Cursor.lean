import TypedClients.Report.Failure
import TypedClients.Text.Surrogate

/-!
# A place in a YAML text

A `Cursor` is the text that is left together with the place it starts at. The end of the text
reads as a NUL character, which no readable text contains.
-/

namespace TypedClients.Yaml

/-- Why a text cannot be read: it is no YAML of known values, or reading a value failed. -/
inductive Refusal
  | malformed
  | mishap (m : Mishap)
  deriving DecidableEq, Repr

/-- The text that is left and where it starts. -/
structure Cursor where
  rest : List Char
  index : Nat
  line : Nat
  column : Nat

/-- The end of the text. -/
def endMark : Char := Char.ofNat 0

/-- The mark that may come first in a text to tell its byte order. -/
def byteOrderMark : Char := Char.ofNat 0xFEFF

/-- Whether a character may occur in a text. A half of one may not, unless it is written as an
escape. -/
def isReadable (c : Char) : Bool :=
  let n := c.toNat
  n == 0x09 || n == 0x0A || n == 0x0D || (0x20 ≤ n && n ≤ 0x7E) || n == 0x85 ||
    (0xA0 ≤ n && n ≤ 0xD7FF) || (0xE000 ≤ n && n ≤ 0xFFFD) ||
    (0x10000 ≤ n && (Text.Surrogate.half? c).isNone)

/-- Whether a character ends a line. -/
def isBreak (c : Char) : Bool :=
  c = '\n' || c = '\r' || c.toNat == 0x85 || c.toNat == 0x2028 || c.toNat == 0x2029

/-- Whether a character ends a line or is the end of the text. -/
def isBreakOrEnd (c : Char) : Bool := isBreak c || c = endMark

/-- Whether a character is a space, ends a line or is the end of the text. -/
def isSpaceBreakOrEnd (c : Char) : Bool := c = ' ' || isBreakOrEnd c

/-- Whether a character is a space or tab, ends a line or is the end of the text. -/
def isBlankBreakOrEnd (c : Char) : Bool := c = '\t' || isSpaceBreakOrEnd c

/-- Whether a character may occur in the name of an anchor, a tag handle or a directive. -/
def isWordChar (c : Char) : Bool :=
  Text.isAsciiLetter c || Text.isAsciiDigit c || c = '-' || c = '_'

namespace Cursor

/-- The start of a text. -/
def start (text : List Char) : Cursor := ⟨text, 0, 0, 0⟩

/-- The character some places ahead. -/
def peek (c : Cursor) (ahead : Nat) : Char := (c.rest[ahead]?).getD endMark

/-- The next character. -/
def head (c : Cursor) : Char := c.peek 0

/-- The place after one more character. -/
def step (c : Cursor) : Cursor :=
  match c.rest with
  | [] => c
  | ch :: rest =>
    if isBreak ch ∧ ¬(ch = '\r' ∧ rest.head? = some '\n') then ⟨rest, c.index + 1, c.line + 1, 0⟩
    else ⟨rest, c.index + 1, c.line, if ch = byteOrderMark then c.column else c.column + 1⟩

/-- The place after some more characters. -/
def advance (c : Cursor) : Nat → Cursor
  | 0 => c
  | n + 1 => c.step.advance n

/-- The characters up to the first one that is not of a class, and the place after them. -/
def takeWhile (c : Cursor) (p : Char → Bool) : List Char × Cursor :=
  let run := c.rest.takeWhile p
  (run, c.advance run.length)

/-- The place after all characters of a class. -/
def skipWhile (c : Cursor) (p : Char → Bool) : Cursor := (c.takeWhile p).2

/-- The place after all spaces. -/
def skipSpaces (c : Cursor) : Cursor := c.skipWhile (· = ' ')

/-- The place after a comment, if one starts here. -/
def skipComment (c : Cursor) : Cursor :=
  if c.head = '#' then c.skipWhile fun ch => !isBreak ch else c

/-- The end of a line as it counts in the text, if one is here, and the place after it. -/
def lineBreak (c : Cursor) : List Char × Cursor :=
  match c.rest with
  | '\r' :: '\n' :: _ => (['\n'], c.advance 2)
  | ch :: _ =>
    if ch = '\r' || ch = '\n' || ch.toNat == 0x85 then (['\n'], c.step)
    else if isBreak ch then ([ch], c.step)
    else ([], c)
  | [] => ([], c)

/-- Whether one of the marks between documents is here. -/
def atDocumentMark (c : Cursor) (mark : String) : Bool :=
  mark.toList.isPrefixOf c.rest && isBlankBreakOrEnd (c.peek 3)

/-- Whether either mark between documents is here. -/
def atAnyDocumentMark (c : Cursor) : Bool := c.atDocumentMark "---" || c.atDocumentMark "..."

end Cursor

end TypedClients.Yaml
