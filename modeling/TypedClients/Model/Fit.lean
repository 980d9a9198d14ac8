import TypedClients.Text.Blank
import TypedClients.Text.Digit
import TypedClients.Text.Lower
import TypedClients.Text.Surrogate
import TypedClients.Value.AsText

/-!
# Fitting values to declared shapes

A `Fit` is what comes of reading a value as a field of a declared shape: the value it becomes,
or all complaints about it, each with its place. Reading several fields collects the
complaints of all of them, in field order. Fields may be lenient about the kind of value: a
flag also takes the usual words, a whole number also takes its digits.
-/

namespace TypedClients.Model

/-- A value read as declared, or the complaints about it. -/
inductive Fit (α : Type)
  | good (a : α)
  | bad (issues : List Issue)

namespace Fit

/-- The complaints about a value. -/
def issues {α : Type} : Fit α → List Issue
  | good _ => []
  | bad issues => issues

/-- Two readings side by side. -/
protected def seq {α β : Type} (f : Fit (α → β)) (x : Unit → Fit α) : Fit β :=
  match f, x () with
  | good g, good a => good (g a)
  | f, y => bad (f.issues ++ y.issues)

/-- A reading followed by a conversion. -/
protected def map {α β : Type} (g : α → β) : Fit α → Fit β
  | good a => good (g a)
  | bad issues => bad issues

instance : Applicative Fit where
  pure := good
  seq := Fit.seq
  map := Fit.map

/-- One complaint at the place being read. -/
def complain {α : Type} (c : Complaint) : Fit α := bad [⟨[], c⟩]

/-- The complaints moved below a step. -/
def under {α : Type} (step : Step) : Fit α → Fit α
  | good a => good a
  | bad issues => bad (issues.map fun i => { i with place := step :: i.place })

/-- The outcome for a model with a name. -/
def toExcept {α : Type} (model : String) : Fit α → Except Failure α
  | good a => .ok a
  | bad issues => .error (.invalid ⟨model, issues⟩)

end Fit

open Fit (complain)

/-! ## Whole numbers in texts

The plain form of a whole number is a minus if it is negative and then its digits, without
zeros in front. A text that is not of this form is cleaned first: blanks around the number, a
plus, zeros in front, single underscores among the digits and a fraction of zeros are taken
away.
-/

/-- The whole number that a text in plain form is. Too many digits are refused as such,
whatever comes after them. -/
def plainNumber (s : List Char) : Except Complaint Int :=
  let minus := s.takeWhile (· = '-')
  let ds := s.drop minus.length
  let run := ds.takeWhile Text.isAsciiDigit
  if 1 < minus.length || run.isEmpty then .error .integerUnreadable
  else if run.head? = some '0' then
    if ds = ['0'] then .ok 0 else .error .integerUnreadable
  else if Number.maxDigits < minus.length + run.length then .error .integerTooLong
  else if run.length < ds.length then .error .integerUnreadable
  else .ok (if minus.isEmpty then Number.value ds else -Number.value ds)

/-- The characters that may stand around a number: the blanks but for the information
separators. -/
def isMargin (c : Char) : Bool := Text.isBlank c && !(0x1C ≤ c.toNat && c.toNat ≤ 0x1F)

/-- A text without margins. -/
def dropMargins (s : List Char) : List Char :=
  ((s.dropWhile isMargin).reverse.dropWhile isMargin).reverse

/-- A text without a plus in front, which no minus may follow. -/
def dropPlus? : List Char → Option (List Char)
  | '+' :: '-' :: _ => none
  | '+' :: rest => some rest
  | s => some s

/-- Whether what comes after zeros in front is a number of its own, with a sign perhaps. -/
def startsNumber (c : Char) : Bool := c = '-' || (Text.isAsciiDigit c && c ≠ '0')

/-- The text after the zeros and underscores in front; the last of them stays if nothing or a
point comes after it. -/
def afterZeros? (last : Char) : List Char → Option (List Char)
  | [] => some [last]
  | c :: rest =>
    if c = '0' || c = '_' then afterZeros? c rest
    else if startsNumber c then some (c :: rest)
    else if c = '.' then some (last :: c :: rest)
    else none

/-- The text of a number without zeros in front, if it begins like one. -/
def dropZeros? : List Char → Option (List Char)
  | [] => none
  | c :: rest =>
    if c = '0' then afterZeros? c rest else if startsNumber c then some (c :: rest) else none

/-- A text without a fraction of zeros, of which there has to be one at least. -/
def dropFraction (s : List Char) : List Char :=
  match s.dropWhile (· ≠ '.') with
  | _ :: z :: zs => if (z :: zs).all (· = '0') then s.takeWhile (· ≠ '.') else s
  | _ => s

/-- A text without underscores, if each stands alone between other characters. -/
def dropUnderscores (s : List Char) : List Char :=
  if s.head? = some '_' || s.getLast? = some '_' || Text.contains ['_', '_'] s then s
  else s.filter (· ≠ '_')

/-- A text with all that may stand around and in a number taken away; a minus in front is kept. -/
def cleaned? (s : List Char) : Option (List Char) := do
  match ← dropPlus? (dropMargins s) with
  | '-' :: rest => return '-' :: dropUnderscores (dropFraction (← dropZeros? rest))
  | s => return dropUnderscores (dropFraction (← dropZeros? s))

/-- The whole number in a text. -/
def wholeNumber (s : String) : Fit Int :=
  match plainNumber s.toList with
  | .ok i => .good i
  | .error .integerTooLong => complain .integerTooLong
  | .error _ =>
    match (cleaned? s.toList).map plainNumber with
    | some (.ok i) => .good i
    | _ => complain .integerUnreadable

/-! ## Kinds of fields

A text is kept as it is. Where it stands for something else, it has to be Unicode first: a
half of a character is a complaint of its own, whatever else is wrong with the text.
-/

/-- A text. -/
def text (v : Value) : Fit String :=
  match v.asText with
  | .ok s => .good s
  | .error complaint => complain complaint

/-- What a text stands for. -/
def meaning {α : Type} (read : String → Fit α) (s : String) : Fit α :=
  if Text.Surrogate.holdsHalf s.toList then complain .notUnicode else read s

/-- A value or null. -/
def optional {α : Type} (read : Value → Fit α) (v : Value) : Fit (Option α) :=
  match v with
  | .null => .good none
  | v => some <$> read v

/-- The items of a list from an index on, all complaints together. -/
def itemsFrom {α : Type} (read : Value → Fit α) (i : Nat) : List Value → Fit (List α)
  | [] => .good []
  | v :: rest => List.cons <$> (read v).under (.index i) <*> itemsFrom read (i + 1) rest

/-- A list. -/
def list {α : Type} (read : Value → Fit α) (v : Value) : Fit (List α) :=
  match v.items? with
  | some items => itemsFrom read 0 items
  | none => complain .notAList

/-- The words for a flag that is set. -/
def yesWords : List String := ["true", "t", "yes", "y", "on", "1"]

/-- The words for a flag that is not set. -/
def noWords : List String := ["false", "f", "no", "n", "off", "0"]

/-- A flag in a text: one of the usual words in any case. -/
def flagOfText (s : String) : Fit Bool :=
  let word := String.ofList (s.toList.map Text.lowerAscii)
  if yesWords.contains word then .good true
  else if noWords.contains word then .good false
  else complain .boolUnreadable

/-- A flag in a number: zero or one. Another number is no flag, and one beyond 64 bits is
nothing like it. -/
def flagOfNumber (i : Int) : Fit Bool :=
  if i = 0 then .good false
  else if i = 1 then .good true
  else if -Number.wordLimit ≤ i ∧ i < Number.wordLimit then complain .boolUnreadable
  else complain .notABool

/-- A flag: a truth value, zero or one, or one of the usual words in any case. -/
def flag (v : Value) : Fit Bool :=
  match v with
  | .bool b => .good b
  | .int i => flagOfNumber i
  | .float x =>
    match (Number.FloatValue.ofFloat x).toInt? with
    | some i => if i.natAbs < Number.wordLimit then flagOfNumber i else complain .notABool
    | none => complain .notABool
  | .str s => meaning flagOfText s
  | _ => complain .notABool

/-- A whole number, in digits, as a truth value or as a number without a fractional part. -/
def integer (v : Value) : Fit Int :=
  match v with
  | .int i => .good i
  | .bool b => .good (if b then 1 else 0)
  | .float x =>
    match Number.FloatValue.ofFloat x with
    | .finite n m e =>
      match (Number.FloatValue.finite n m e).toInt? with
      | some i => if i.natAbs < Number.wordLimit then .good i else complain .integerTooLong
      | none => complain .notWhole
    | _ => complain .notFinite
  | .str s => meaning wholeNumber s
  | _ => complain .notAnInteger

/-- A whole number that is at least a bound. -/
def integerFrom (bound : Int) (v : Value) : Fit Int :=
  match integer v with
  | .good i => if bound ≤ i then .good i else complain .tooSmall
  | bad => bad

/-- The thing with a name. -/
def named {α : Type} (names : List (String × α)) (s : String) : Fit α :=
  match names.find? (·.1 = s) with
  | some (_, a) => .good a
  | none => complain .notAMember

/-- One of some named things. -/
def oneOf {α : Type} (names : List (String × α)) (v : Value) : Fit α :=
  match v with
  | .str s => meaning (named names) s
  | _ => complain .notAMember

/-! ## Objects with fields -/

/-- An object, read field by field. -/
def object {α : Type} (fields : Value → Fit α) (v : Value) : Fit α :=
  if v.isMap then fields v else complain .notAnObject

/-- A field that must be there. -/
def required {α : Type} (v : Value) (name : String) (read : Value → Fit α) : Fit α :=
  match v.get? name with
  | some w => (read w).under (.field name)
  | none => (complain .missing : Fit α).under (.field name)

/-- A field with a value to take if it is not there. -/
def withDefault {α : Type} (v : Value) (name : String) (default : α) (read : Value → Fit α) :
    Fit α :=
  match v.get? name with
  | some w => (read w).under (.field name)
  | none => .good default

end TypedClients.Model
