import TypedClients.Number.Digits

/-!
# Where and why a JSON text is refused

A `Fault` is found while reading and counts its place from the end of the text, so that no reader
carries a position. `locate` turns it into the line, column and offset that messages show.
-/

namespace TypedClients.Json

open Number (natText)

/-- Why a text is no JSON document. -/
inductive Reason
  | value
  | propertyName
  | colon
  | comma
  | extraData
  | unterminatedString
  | controlCharacter
  | escape
  | unicodeEscape
  | byteOrderMark
  /-- A whole number of more digits than are read. -/
  | tooManyDigits (digits : Nat)
  deriving DecidableEq, Repr

/-- The words of a reason. -/
def Reason.text : Reason → String
  | value => "Expecting value"
  | propertyName => "Expecting property name enclosed in double quotes"
  | colon => "Expecting ':' delimiter"
  | comma => "Expecting ',' delimiter"
  | extraData => "Extra data"
  | unterminatedString => "Unterminated string starting at"
  | controlCharacter => "Invalid control character at"
  | escape => "Invalid \\escape"
  | unicodeEscape => "Invalid \\uXXXX escape"
  | byteOrderMark => "Unexpected UTF-8 BOM (decode using utf-8-sig)"
  | tooManyDigits digits =>
    "Exceeds the limit (" ++ natText Number.maxDigits ++
      " digits) for integer string conversion: value has " ++ natText digits ++
      " digits; use sys.set_int_max_str_digits() to increase the limit"

/-- A fault at a place with `left` characters between it and the end of the text. -/
structure Fault where
  reason : Reason
  left : Nat
  deriving DecidableEq, Repr

/-- A fault with its place in the text: lines and columns count from one, offsets from zero. -/
structure SyntaxError where
  reason : Reason
  line : Nat
  column : Nat
  offset : Nat
  deriving DecidableEq, Repr

/-- The fault with its place in a text. -/
def Fault.locate (text : List Char) (f : Fault) : SyntaxError :=
  let offset := text.length - f.left
  let before := text.take offset
  { reason := f.reason
    line := before.count '\n' + 1
    column := (before.reverse.takeWhile (· ≠ '\n')).length + 1
    offset := offset }

/-- Whether the text is refused for its form, and not for the size of a number in it. -/
def SyntaxError.isFormal (e : SyntaxError) : Bool :=
  match e.reason with
  | .tooManyDigits _ => false
  | _ => true

/-- The message of a fault. Only a fault of form has a place in it. -/
def SyntaxError.message (e : SyntaxError) : String :=
  if !e.isFormal then e.reason.text else
  e.reason.text ++ ": line " ++ natText e.line ++ " column " ++ natText e.column ++
    " (char " ++ natText e.offset ++ ")"

end TypedClients.Json
