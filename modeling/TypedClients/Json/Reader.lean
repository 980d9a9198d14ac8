import TypedClients.Json.Fault
import TypedClients.Number.Binary
import TypedClients.Text.Digit
import TypedClients.Text.Surrogate
import TypedClients.Value.Same

/-!
# Reading JSON

A strict reader with the three extra numbers `NaN`, `Infinity` and `-Infinity`. Integers keep
all their digits, other numbers become doubles. Of several members with one name the last
value counts, at the place of the first.

Every reading function takes the characters that are left and returns what it read with the
characters left after it. The mutual functions take an allowance that goes down by one in each
call; two calls per character are enough, because between two of them a character is consumed.
-/

namespace TypedClients.Json

open Text (isAsciiDigit hexValue?)
open Text.Surrogate (isHigh isLow ofUnit ofPair)

/-- A reader of a prefix of the text that is left. -/
abbrev Reading (α : Type) := List Char → Except Fault (α × List Char)

/-- Refuses the text at a place. -/
def refuse {α : Type} (reason : Reason) (rest : List Char) : Except Fault α :=
  .error ⟨reason, rest.length⟩

/-- The text after the blanks that JSON allows between tokens. -/
def skipBlanks (s : List Char) : List Char :=
  s.dropWhile fun c => c = ' ' || c = '\t' || c = '\n' || c = '\r'

/-! ## Strings -/

/-- The character that a one-letter escape stands for. -/
def escaped? : Char → Option Char
  | '\x22' => some '\x22'
  | '\\' => some '\\'
  | '/' => some '/'
  | 'b' => some (Char.ofNat 8)
  | 'f' => some (Char.ofNat 12)
  | 'n' => some '\n'
  | 'r' => some '\r'
  | 't' => some '\t'
  | _ => none

/-- The number that four hexadecimal digits stand for. -/
def hexQuad? (a b c d : Char) : Option Nat := do
  let a ← hexValue? a
  let b ← hexValue? b
  let c ← hexValue? c
  let d ← hexValue? d
  return ((a * 16 + b) * 16 + c) * 16 + d

/-- The rest of a string after its opening quote. `start` is the text from the opening quote
on, for the fault of a string without an end; `done` holds the characters read, last one
first. -/
def stringRest (start : List Char) (done : List Char) : Reading String
  | [] => refuse .unterminatedString start
  | '\x22' :: rest => .ok (String.ofList done.reverse, rest)
  | ['\\'] => refuse .unterminatedString start
  | '\\' :: 'u' :: a :: b :: c :: d :: '\\' :: 'u' :: e :: f :: g :: h :: x :: rest =>
    match hexQuad? a b c d with
    | none => .error ⟨.unicodeEscape, rest.length + 12⟩
    | some high =>
      if isHigh high then
        match hexQuad? e f g h with
        | none => .error ⟨.unicodeEscape, rest.length + 6⟩
        | some low =>
          if isLow low then stringRest start (ofPair high low :: done) (x :: rest)
          else stringRest start (ofUnit high :: done)
            ('\\' :: 'u' :: e :: f :: g :: h :: x :: rest)
      else stringRest start (ofUnit high :: done) ('\\' :: 'u' :: e :: f :: g :: h :: x :: rest)
  | '\\' :: 'u' :: a :: b :: c :: d :: x :: rest =>
    match hexQuad? a b c d with
    | none => .error ⟨.unicodeEscape, rest.length + 6⟩
    | some unit => stringRest start (ofUnit unit :: done) (x :: rest)
  | '\\' :: 'u' :: rest => .error ⟨.unicodeEscape, rest.length + 1⟩
  | '\\' :: c :: rest =>
    match escaped? c with
    | some e => stringRest start (e :: done) rest
    | none => .error ⟨.escape, rest.length + 2⟩
  | c :: rest =>
    if c.toNat < 0x20 then refuse .controlCharacter (c :: rest)
    else stringRest start (c :: done) rest
termination_by s => s.length

/-! ## Numbers -/

/-- A run of ASCII digits and the text after it. -/
def digitRun (s : List Char) : List Char × List Char :=
  (s.takeWhile isAsciiDigit, s.dropWhile isAsciiDigit)

/-- The digits after a decimal point, if a point followed by a digit comes next. -/
def fractionPart (s : List Char) : List Char × List Char :=
  match s with
  | '.' :: rest => if (digitRun rest).1.isEmpty then ([], s) else digitRun rest
  | _ => ([], s)

/-- The exponent, if one with at least one digit comes next. -/
def exponentPart (s : List Char) : Option Int × List Char :=
  match s with
  | e :: rest =>
    if e = 'e' || e = 'E' then
      let (negative, rest') := match rest with
        | '-' :: r => (true, r)
        | '+' :: r => (false, r)
        | r => (false, r)
      let (ds, after) := digitRun rest'
      if ds.isEmpty then (none, s)
      else
        let n : Int := Number.value ds
        (some (if negative then -n else n), after)
    else (none, s)
  | [] => (none, s)

/-- A number without its sign; none unless a digit comes first. A leading zero stands alone. -/
def unsigned? (negative : Bool) (s : List Char) : Except Fault (Option (Value × List Char)) :=
  let (whole, rest) := match s with
    | '0' :: r => (['0'], r)
    | _ => digitRun s
  if whole.isEmpty then .ok none
  else
    let (fraction, rest₁) := fractionPart rest
    let (exponent, rest₂) := exponentPart rest₁
    if fraction.isEmpty && exponent.isNone then
      if whole.length > Number.maxDigits then refuse (.tooManyDigits whole.length) s
      else
        let n : Int := Number.value whole
        .ok (some (.int (if negative then -n else n), rest))
    else
      let x := Number.floatOfDecimal (Number.value (whole ++ fraction))
        (exponent.getD 0 - fraction.length)
      .ok (some (.float (Number.withSign negative x), rest₂))

/-- The text after a word, if it begins with the word. -/
def after? (word : String) (s : List Char) : Option (List Char) :=
  if word.toList.isPrefixOf s then some (s.drop word.length) else none

/-- A literal name or a number. -/
def atom (s : List Char) : Except Fault (Value × List Char) :=
  let names : List (String × Value) :=
    [("null", .null), ("true", .bool true), ("false", .bool false),
      ("NaN", .float Number.notANumber),
     ("Infinity", .float Number.infinity), ("-Infinity", .float (-Number.infinity))]
  match names.findSome? fun (word, v) => (after? word s).map (v, ·) with
  | some found => .ok found
  | none => do
    let number ← match s with
      | '-' :: rest => unsigned? true rest
      | _ => unsigned? false s
    match number with
    | some found => .ok found
    | none => refuse .value s

/-! ## Documents -/

mutual

/-- A value, with no blanks before it. -/
def value : Nat → Reading Value
  | 0, s => refuse .value s
  | allowance + 1, s =>
    match s with
    | '\x22' :: rest => do
      let (text, rest) ← stringRest s [] rest
      return (.str text, rest)
    | '[' :: rest =>
      match skipBlanks rest with
      | ']' :: rest => .ok (.list [], rest)
      | rest => do
        let (items, rest) ← itemsRest allowance rest
        return (.list items, rest)
    | '\x7b' :: rest =>
      match skipBlanks rest with
      | '\x7d' :: rest => .ok (.map [], rest)
      | rest => do
        let (members, rest) ← membersRest allowance [] rest
        return (.map members, rest)
    | _ => atom s

/-- The items of an array up to its end, from the first character of an item on. -/
def itemsRest : Nat → Reading (List Value)
  | 0, s => refuse .value s
  | allowance + 1, s => do
    let (v, rest) ← value allowance s
    match skipBlanks rest with
    | ']' :: rest => return ([v], rest)
    | ',' :: rest => do
      let (vs, rest) ← itemsRest allowance (skipBlanks rest)
      return (v :: vs, rest)
    | rest => refuse .comma rest

/-- The members of an object up to its end, from the first character of a member on. -/
def membersRest : Nat → List (Value × Value) → Reading (List (Value × Value))
  | 0, _, s => refuse .propertyName s
  | allowance + 1, done, s => do
    let (name, rest) ← match s with
      | '\x22' :: rest => stringRest s [] rest
      | _ => refuse .propertyName s
    let rest ← match skipBlanks rest with
      | ':' :: rest => Except.ok (skipBlanks rest)
      | rest => refuse .colon rest
    let (v, rest) ← value allowance rest
    let done := Value.upsert (.str name) v done
    match skipBlanks rest with
    | '\x7d' :: rest => return (done, rest)
    | ',' :: rest => membersRest allowance done (skipBlanks rest)
    | rest => refuse .comma rest

end

/-- The value of a whole text, with blanks around it. -/
def document (text : List Char) : Except Fault Value :=
  if text.head? = some (Char.ofNat 0xFEFF) then refuse .byteOrderMark text
  else do
    let (v, rest) ← value (2 * text.length + 2) (skipBlanks text)
    match skipBlanks rest with
    | [] => return v
    | rest => refuse .extraData rest

/-- Reads a JSON text. -/
def read (text : String) : Except SyntaxError Value :=
  match document text.toList with
  | .ok v => .ok v
  | .error f => .error (f.locate text.toList)

end TypedClients.Json
