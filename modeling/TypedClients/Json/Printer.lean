import TypedClients.Report.Failure
import TypedClients.Text.Digit
import TypedClients.Text.Pieces
import TypedClients.Text.Surrogate

/-!
# Writing JSON

`compact` writes a value on one line in ASCII and refuses what JSON has no form for (a moment,
bytes, a set, a map whose keys are no scalars, a collection that contains itself) and whole
numbers of too many digits. `pretty` writes it over several lines, two columns deeper per
level, leaves characters above ASCII as they are and writes as a string what JSON has no form
for.
-/

namespace TypedClients.Json

open Text (hexText joinStrings repeated)

/-- The layout of numbers: as everywhere, with JSON's names for the values that are none. -/
def floatStyle : Number.FloatStyle :=
  { Number.plainFloat with nan := "NaN", infinity := "Infinity" }

/-- The text of a double. -/
def floatText (x : Float) : String := String.ofList (floatStyle.text (.ofFloat x))

/-- A character as a code-unit escape, two of them above the basic plane. -/
def unitEscape (c : Char) : List Char :=
  let n := (Text.Surrogate.half? c).getD c.toNat
  if n < 0x10000 then '\\' :: 'u' :: hexText 4 n
  else
    '\\' :: 'u' :: hexText 4 (0xD800 + (n - 0x10000) / 0x400) ++
      '\\' :: 'u' :: hexText 4 (0xDC00 + (n - 0x10000) % 0x400)

/-- A character inside a string; `ascii` asks for an escape in place of any character above
ASCII. -/
def stringChar (ascii : Bool) (c : Char) : List Char :=
  if c = '\x22' ∨ c = '\\' then ['\\', c]
  else if c = '\n' then ['\\', 'n']
  else if c = '\r' then ['\\', 'r']
  else if c = '\t' then ['\\', 't']
  else if c.toNat = 8 then ['\\', 'b']
  else if c.toNat = 12 then ['\\', 'f']
  else if c.toNat < 0x20 then unitEscape c
  else if ascii && 0x7E < c.toNat then unitEscape c
  else [c]

/-- A string in double quotes. -/
def stringText (ascii : Bool) (s : String) : String :=
  String.ofList ('\x22' :: s.toList.flatMap (stringChar ascii) ++ ['\x22'])

/-- The member name that a scalar key is written as. -/
def keyName? : Value → Option String
  | .str s => some s
  | .null => some "null"
  | .bool b => some (if b then "true" else "false")
  | .int i => some (Number.intText i)
  | .float x => some (floatText x)
  | _ => none

/-! ## On one line -/

mutual

/-- A value on one line, if it has a JSON form. -/
def compact : Value → Except Mishap String
  | .null => .ok "null"
  | .bool b => .ok (if b then "true" else "false")
  | .int i => if i.natAbs < Number.digitsLimit then .ok (Number.intText i) else .error .wrongValue
  | .float x => .ok (floatText x)
  | .str s => .ok (stringText true s)
  | .list xs => do return "[" ++ joinStrings ", " (← compactItems xs) ++ "]"
  | .pair k v => do return "[" ++ (← compact k) ++ ", " ++ (← compact v) ++ "]"
  | .map es => do return "\x7b" ++ joinStrings ", " (← compactEntries es) ++ "\x7d"
  | .bytes _ | .set _ | .moment _ => .error .wrongType
  | .knot _ v => compact v
  | .endless => .error .wrongValue

/-- The items of a list, each on one line. -/
def compactItems : List Value → Except Mishap (List String)
  | [] => .ok []
  | x :: xs => do return (← compact x) :: (← compactItems xs)

/-- The members of an object, each on one line. -/
def compactEntries : List (Value × Value) → Except Mishap (List String)
  | [] => .ok []
  | (k, v) :: es => do
    let name ← (keyName? k).elim (.error .wrongType) .ok
    let text ← compact v
    return (stringText true name ++ ": " ++ text) :: (← compactEntries es)

end

/-! ## Over several lines -/

/-- The lines of a collection between its brackets, or just the brackets when it is empty. -/
def bracketed (opening closing : String) (depth : Nat) (texts : List String) : String :=
  if texts.isEmpty then opening ++ closing
  else
    let margin := "\n" ++ repeated "  " (depth + 1)
    opening ++ margin ++ joinStrings ("," ++ margin) texts ++ "\n" ++ repeated "  " depth ++ closing

mutual

/-- A value over several lines, whose first line stands at a depth. -/
def prettyAt (depth : Nat) : Value → String
  | .null => "null"
  | .bool b => if b then "true" else "false"
  | .int i => Number.intText i
  | .float x => floatText x
  | .str s => stringText false s
  | .list xs => bracketed "[" "]" depth (prettyItems depth xs)
  | .pair k v => bracketed "[" "]" depth [prettyAt (depth + 1) k, prettyAt (depth + 1) v]
  | .map es => bracketed "\x7b" "\x7d" depth (prettyEntries depth es)
  | .moment m => stringText false (m.isoText " ")
  | .bytes bs => stringText false (Value.quotedBytes bs)
  | .set xs => stringText false (Value.set xs).inner
  | .knot _ v => prettyAt depth v
  | .endless => stringText false "..."

/-- The items of a list, one depth below it. -/
def prettyItems (depth : Nat) : List Value → List String
  | [] => []
  | x :: xs => prettyAt (depth + 1) x :: prettyItems depth xs

/-- The members of an object, one depth below it. -/
def prettyEntries (depth : Nat) : List (Value × Value) → List String
  | [] => []
  | (k, v) :: es =>
    (stringText false ((keyName? k).getD k.display) ++ ": " ++ prettyAt (depth + 1) v) ::
      prettyEntries depth es

end

/-- A value over several lines. -/
def pretty (v : Value) : String := prettyAt 0 v

end TypedClients.Json
