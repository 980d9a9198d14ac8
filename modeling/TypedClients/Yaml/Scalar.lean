import TypedClients.Number.Binary
import TypedClients.Text.Base64
import TypedClients.Text.Blank
import TypedClients.Value.Basic
import TypedClients.Yaml.Cursor
import TypedClients.Yaml.Tag

/-!
# The values of scalars

How the text of a scalar is read once its tag is known. A tag that was written out may stand
before a text that has not its form; then reading fails in a way that depends on the tag.
-/

namespace TypedClients.Yaml.Scalar

open Text (trim digitValue? isAsciiDigit isAsciiLetter)

/-- A reading that fails for a reason other than the form of the document. -/
def fail {α : Type} (m : Mishap) : Except Refusal α := .error (.mishap m)

/-- A text in small letters as far as it is ASCII. -/
def small (s : List Char) : List Char := s.map Char.toLower

/-- The sign that a text begins with, and the rest; no sign is a plus. -/
def signed : List Char → Bool × List Char
  | '-' :: rest => (true, rest)
  | '+' :: rest => (false, rest)
  | s => (false, s)

/-- A number with a minus if the flag is set. -/
def withMinus (negative : Bool) (n : Int) : Int := if negative then -n else n

/-! ## Whole numbers -/

/-- The value of a digit below 36. -/
def digit? (c : Char) : Option Nat :=
  match digitValue? c with
  | some n => some n
  | none =>
    if isAsciiLetter c then some (c.toLower.toNat - 'a'.toNat + 10) else none

/-- The letter that announces a base after a zero. -/
def baseLetter? : Nat → Option Char
  | 2 => some 'b'
  | 8 => some 'o'
  | 16 => some 'x'
  | _ => none

/-- Digits without the announcement of their base. -/
def dropBase (base : Nat) : List Char → List Char
  | '0' :: c :: rest => if baseLetter? base = some c.toLower then rest else '0' :: c :: rest
  | s => s

/-- The whole number that a text in a base is, perhaps with blanks around it and a sign. -/
def whole? (base : Nat) (s : List Char) : Option Int :=
  let (negative, ds) := signed (trim s)
  let ds := dropBase base ds
  if ds.isEmpty || (base = 10 && ds.length > Number.maxDigits) then none
  else do
    let n ← ds.foldlM (fun n c => do
      let d ← digit? c
      if d < base then some (base * n + d) else none) 0
    return withMinus negative n

/-- Digits to base sixty, most significant first, as a number. -/
def sixties (ds : List Int) : Int := ds.foldl (fun n d => 60 * n + d) 0

/-- The magnitude of a whole number in one of its forms. -/
def magnitude? (s : List Char) : Option Int :=
  match s with
  | ['0'] => some 0
  | '0' :: 'b' :: rest => whole? 2 rest
  | '0' :: 'x' :: rest => whole? 16 rest
  | '0' :: _ => whole? 8 s
  | _ =>
    if s.contains ':' then ((Text.splitAt ':' s).mapM (whole? 10)).map sixties else whole? 10 s

/-- A whole number. -/
def int (s : List Char) : Except Refusal Value :=
  let (negative, s) := signed (s.filter (· ≠ '_'))
  if s.isEmpty then fail .missingIndex
  else match magnitude? s with
    | some n => .ok (.int (withMinus negative n))
    | none => fail .wrongValue

/-! ## Numbers with a point -/

/-- The exponent at the end of a decimal number. -/
def exponent? : List Char → Option Int
  | [] => some 0
  | e :: rest =>
    if e ≠ 'e' ∧ e ≠ 'E' then none
    else
      let (negative, ds) := signed rest
      (Text.decimalValue? ds).map fun n => withMinus negative n

/-- A decimal number without its sign. -/
def unsignedDecimal? (s : List Char) : Option Float := do
  let isDigit (c : Char) : Bool := (digitValue? c).isSome
  let whole := s.takeWhile isDigit
  let rest := s.dropWhile isDigit
  let (fraction, rest) := match rest with
    | '.' :: rest => (rest.takeWhile isDigit, rest.dropWhile isDigit)
    | rest => ([], rest)
  let mantissa ← Text.decimalValue? (whole ++ fraction)
  let exponent ← exponent? rest
  return Number.floatOfDecimal mantissa (exponent - fraction.length)

/-- A decimal number, perhaps with blanks around it and a sign. -/
def decimal? (s : List Char) : Option Float :=
  let (negative, s) := signed (trim s)
  if ["inf".toList, "infinity".toList].contains (small s) then
    some (Number.withSign negative Number.infinity)
  else if small s = "nan".toList then some Number.notANumber
  else (unsignedDecimal? s).map (Number.withSign negative)

/-- Numbers to base sixty, least significant first, summed up from the start. A weight has to
be in the range of a double. -/
def sixtyfold (sum : Float) (weight : Nat) : List Float → Except Refusal Float
  | [] => .ok sum
  | d :: ds =>
    let w := Number.floatOfDecimal weight 0
    if w.isInf then fail (.overflow .double) else sixtyfold (sum + d * w) (60 * weight) ds

/-- A decimal number, or several with colons between them to base sixty. -/
def decimalOrSixties (s : List Char) : Except Refusal Float :=
  if s.contains ':' then
    match (Text.splitAt ':' s).mapM decimal? with
    | some ds => sixtyfold 0.0 1 ds.reverse
    | none => fail .wrongValue
  else (decimal? s).elim (fail .wrongValue) .ok

/-- A number with a point. -/
def float (s : List Char) : Except Refusal Value := do
  let text := small (s.filter (· ≠ '_'))
  let (negative, s) := signed text
  if text.isEmpty then fail .missingIndex
  let x ←
    if s = ".inf".toList then pure Number.infinity
    else if s = ".nan".toList then pure Number.notANumber
    else decimalOrSixties s
  return .float (Number.withSign negative x)

/-! ## Other scalars -/

/-- A truth value. -/
def bool (s : List Char) : Except Refusal Value :=
  if ["yes".toList, "true".toList, "on".toList].contains (small s) then .ok (.bool true)
  else if ["no".toList, "false".toList, "off".toList].contains (small s) then .ok (.bool false)
  else fail .missingKey

/-- A timestamp, which has to exist. -/
def timestamp (s : List Char) : Except Refusal Value :=
  match Tag.moment? (Tag.dropFinalBreak s) with
  | some m => if m.valid then .ok (.moment m) else fail .wrongValue
  | none => fail .missingAttribute

/-- Bytes, written in ASCII. -/
def binary (s : List Char) : Except Refusal Value :=
  if !s.all (·.toNat < 0x80) then .error .malformed
  else (Text.Base64.decode? s).elim (.error .malformed) fun bs => .ok (.bytes bs)

/-- The value of a scalar with a tag. -/
def value (tag : Tag) (s : List Char) : Except Refusal Value :=
  match tag with
  | .null => .ok .null
  | .bool => bool s
  | .int => int s
  | .float => float s
  | .timestamp => timestamp s
  | .str => .ok (.str (String.ofList s))
  | .binary => binary s
  | .merge | .value | .seq | .pairs | .set | .map | .other => .error .malformed

end TypedClients.Yaml.Scalar
