import TypedClients.Number.Digits
import TypedClients.Text.Digit
import TypedClients.Text.Pieces
import TypedClients.Value.Moment

/-!
# The kinds of nodes

Every node of a YAML document has a tag that says what kind of value it stands for. A tag is
written out, or it follows from the text of a plain scalar: `Tag.ofText` holds the forms of
each kind.
-/

namespace TypedClients.Yaml

open Text (isAsciiDigit hexValue?)

/-- What kind of value a node stands for. -/
inductive Tag
  | null
  | bool
  | int
  | float
  | timestamp
  | str
  | binary
  /-- The key under which other mappings are merged in. -/
  | merge
  /-- The key under which a mapping holds the scalar it can stand for. -/
  | value
  | seq
  | pairs
  | set
  | map
  | other
  deriving DecidableEq, Repr

namespace Tag

/-- What the tags of the usual kinds begin with. -/
def family : String := "tag:yaml.org,2002:"

/-- The tag with a written-out name. -/
def ofName (name : String) : Tag :=
  let known : List (String × Tag) :=
    [("null", null), ("bool", bool), ("int", int), ("float", float), ("timestamp", timestamp),
      ("str", str), ("binary", binary), ("merge", merge), ("value", value), ("seq", seq),
      ("pairs", pairs), ("omap", pairs), ("set", set), ("map", map)]
  match known.find? fun (word, _) => family ++ word = name with
  | some (_, tag) => tag
  | none => other

/-! ## Forms of scalars -/

/-- Whether a character may stand inside a number. -/
def isDigitOrGap (c : Char) : Bool := isAsciiDigit c || c = '_'

/-- A text without the sign it may begin with. -/
def dropSign : List Char → List Char
  | '-' :: rest => rest
  | '+' :: rest => rest
  | s => s

/-- Whether a text has digits, perhaps with gaps after the first. -/
def isGrouped : List Char → Bool
  | c :: rest => isAsciiDigit c && rest.all isDigitOrGap
  | [] => false

/-- Whether a text is a number below sixty. -/
def isSixtieth : List Char → Bool
  | [c] => isAsciiDigit c
  | [c, d] => isAsciiDigit c && c.toNat < '6'.toNat && isAsciiDigit d
  | _ => false

/-- Whether a text is numbers with colons between them, all but the first below sixty. -/
def isSexagesimal (first : List Char → Bool) (s : List Char) : Bool :=
  match Text.splitAt ':' s with
  | head :: part :: parts => first head && (part :: parts).all isSixtieth
  | _ => false

/-- Whether a text is empty or an exponent with its sign. -/
def isExponent : List Char → Bool
  | [] => true
  | e :: sign :: rest =>
    (e = 'e' || e = 'E') && (sign = '-' || sign = '+') && !rest.isEmpty && rest.all isAsciiDigit
  | _ => false

/-- Whether a text is digits, perhaps with gaps, and then perhaps an exponent. -/
def isFraction (s : List Char) : Bool := isExponent (s.dropWhile isDigitOrGap)

/-- Whether a text has the form of a number with a point. -/
def isFloat (s : List Char) : Bool :=
  let unsigned := dropSign s
  let whole := unsigned.takeWhile (· ≠ '.')
  match unsigned.dropWhile (· ≠ '.') with
  | [] => false
  | _ :: fraction =>
    if whole.isEmpty then
      fraction ∈ ["inf".toList, "Inf".toList, "INF".toList] ||
        (unsigned = s &&
          (fraction ∈ ["nan".toList, "NaN".toList, "NAN".toList] ||
            (fraction.head?.any isAsciiDigit && isFraction fraction)))
    else
      (isGrouped whole && isFraction fraction) ||
        (isSexagesimal isGrouped whole && fraction.all isDigitOrGap)

/-- Whether a text has digits that begin with no zero, perhaps with gaps. -/
def isLeading (s : List Char) : Bool := isGrouped s && s.head? ≠ some '0'

/-- Whether a text has the form of a whole number. -/
def isInt (s : List Char) : Bool :=
  match dropSign s with
  | ['0'] => true
  | '0' :: 'b' :: rest => !rest.isEmpty && rest.all fun c => c = '0' || c = '1' || c = '_'
  | '0' :: 'x' :: rest => !rest.isEmpty && rest.all fun c => (hexValue? c).isSome || c = '_'
  | '0' :: rest => rest.all fun c => (isAsciiDigit c && c.toNat < '8'.toNat) || c = '_'
  | rest => isLeading rest || isSexagesimal isLeading rest

/-! ## Timestamps -/

/-- Between a least and a greatest number of digits, as a number, and what follows. -/
def digitsWithin (least most : Nat) (s : List Char) : Option (Nat × List Char) :=
  let ds := (s.take most).takeWhile isAsciiDigit
  if least ≤ ds.length then some (Number.value ds, s.drop ds.length) else none

/-- The text after a character that has to come next. -/
def after? (c : Char) : List Char → Option (List Char)
  | d :: rest => if d = c then some rest else none
  | [] => none

/-- What separates a date from a time of day. -/
def afterDate? (s : List Char) : Option (List Char) :=
  match s with
  | 'T' :: rest => some rest
  | 't' :: rest => some rest
  | _ =>
    let rest := s.dropWhile fun c => c = ' ' || c = '\t'
    if rest.length < s.length then some rest else none

/-- The zone at the end of a time of day, in minutes. -/
def zone? (s : List Char) : Option (Option Int) :=
  match s.dropWhile fun c => c = ' ' || c = '\t' with
  | [] => if s.isEmpty then some none else none
  | ['Z'] => some (some 0)
  | sign :: rest => do
    if sign ≠ '-' ∧ sign ≠ '+' then none
    let (hours, rest) ← digitsWithin 1 2 rest
    let minutes ← match rest with
      | [] => some 0
      | _ => do
        let (minutes, rest) ← digitsWithin 2 2 (← after? ':' rest)
        if rest.isEmpty then some minutes else none
    let offset : Int := 60 * hours + minutes
    return some (if sign = '-' then -offset else offset)

/-- The fraction of a second, cut to microseconds, and what follows. -/
def fraction (s : List Char) : Nat × List Char :=
  match s with
  | '.' :: rest =>
    let ds := (rest.takeWhile isAsciiDigit).take 6
    (Number.value (ds ++ List.replicate (6 - ds.length) '0'), rest.dropWhile isAsciiDigit)
  | _ => (0, s)

/-- The date, with the time of day if there is one, that a text has the form of. Such a date
may not exist. -/
def moment? (s : List Char) : Option Moment := do
  let (year, s) ← digitsWithin 4 4 s
  let (month, s) ← digitsWithin 1 2 (← after? '-' s)
  let (day, s) ← digitsWithin 1 2 (← after? '-' s)
  if s.isEmpty then return ⟨year, month, day, none⟩
  else do
    let (hour, s) ← digitsWithin 1 2 (← afterDate? s)
    let (minute, s) ← digitsWithin 2 2 (← after? ':' s)
    let (second, s) ← digitsWithin 2 2 (← after? ':' s)
    let (micro, s) := fraction s
    return ⟨year, month, day, some ⟨hour, minute, second, micro, ← zone? s⟩⟩

/-- Whether a plain text is a timestamp. A date alone needs all its digits. -/
def isTimestamp (s : List Char) : Bool :=
  match moment? s with
  | some m => m.clock.isSome || s.length = 10
  | none => false

/-! ## The tag of a plain scalar -/

/-- A word in small letters, with a capital at its start, and in capitals. -/
def casings (word : String) : List (List Char) :=
  let cs := word.toList
  [cs, cs.take 1 |>.map Char.toUpper |>.append (cs.drop 1), cs.map Char.toUpper]

/-- The words for truth values. -/
def boolWords : List (List Char) :=
  ["yes", "no", "true", "false", "on", "off"].flatMap casings

/-- The words for null. -/
def nullWords : List (List Char) := [] :: ['~'] :: casings "null"

/-- A text without the line end that it may end with, which does not count in the form of a
scalar. -/
def dropFinalBreak (s : List Char) : List Char :=
  if 1 < s.length && s.getLast? = some '\n' then s.dropLast else s

/-- The tag that a text without a line end at its end asks for. -/
def ofForm (s : List Char) : Tag :=
  if s ∈ boolWords then bool
  else if isFloat s then float
  else if isInt s then int
  else if s = ['<', '<'] then merge
  else if s ∈ nullWords then null
  else if isTimestamp s then timestamp
  else if s = ['='] then value
  else if s = ['!'] || s = ['&'] || s = ['*'] then other
  else str

/-- The tag that the text of a plain scalar asks for. -/
def ofText (s : List Char) : Tag := ofForm (dropFinalBreak s)

end Tag

end TypedClients.Yaml
