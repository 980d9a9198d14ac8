import TypedClients.Value.Basic
import TypedClients.Number.Shortest
import TypedClients.Text.Visible
import TypedClients.Text.Digit
import TypedClients.Text.Pieces
import TypedClients.Text.Surrogate

/-!
# Values as text in messages and names

A value that is used where a text is wanted (a title, a tag, a status code) is *displayed*: a
string as itself, any other value in the spelling fixed below. Inside a list or map, strings
are *quoted*: in single quotes, or in double ones when the text holds a single quote and no
double one, with characters that have no visible form escaped. A collection inside itself is
shown as its brackets around three dots.
-/

namespace TypedClients.Value

open Text (hexText isVisible)

/-- A character inside a quoted text. -/
def quotedChar (quote c : Char) : List Char :=
  if c = quote ∨ c = '\\' then ['\\', c]
  else if c = '\n' then ['\\', 'n']
  else if c = '\r' then ['\\', 'r']
  else if c = '\t' then ['\\', 't']
  else if isVisible c then [c]
  else
    let n := (Text.Surrogate.half? c).getD c.toNat
    if n < 0x100 then '\\' :: 'x' :: hexText 2 n
    else if n < 0x10000 then '\\' :: 'u' :: hexText 4 n
    else '\\' :: 'U' :: hexText 8 n

/-- The quote that a text is put in. -/
def quoteFor (cs : List Char) : Char :=
  if cs.contains '\x27' && !cs.contains '\x22' then '\x22' else '\x27'

/-- A text in quotes. -/
def quoted (s : String) : String :=
  let quote := quoteFor s.toList
  String.ofList (quote :: s.toList.flatMap (quotedChar quote) ++ [quote])

/-- A byte inside quotes: an ASCII character as in a text, any other in two hexadecimal digits. -/
def quotedByte (quote c : Char) : List Char :=
  if c.toNat < 0x7F then quotedChar quote c else '\\' :: 'x' :: hexText 2 c.toNat

/-- Bytes in quotes. -/
def quotedBytes (bs : List UInt8) : String :=
  let cs := bs.map fun b => Char.ofNat b.toNat
  let quote := quoteFor cs
  String.ofList ('b' :: quote :: cs.flatMap (quotedByte quote) ++ [quote])

/-- What stands for a collection inside itself. -/
def ellipsis (v : Value) : String := if v.isMap then "\x7b...\x7d" else "[...]"

mutual

/-- A value as it is shown inside of some knots. -/
def innerOf (around : List Nat) : Value → String
  | null => "None"
  | bool b => if b then "True" else "False"
  | int i => Number.intText i
  | float x => String.ofList (Number.plainFloat.text (.ofFloat x))
  | str s => quoted s
  | bytes bs => quotedBytes bs
  | list xs => "[" ++ Text.joinStrings ", " (innerItems around xs) ++ "]"
  | pair k v => "(" ++ innerOf around k ++ ", " ++ innerOf around v ++ ")"
  | set [] => "set()"
  | set (x :: xs) => "\x7b" ++ Text.joinStrings ", " (innerItems around (x :: xs)) ++ "\x7d"
  | map es => "\x7b" ++ Text.joinStrings ", " (innerEntries around es) ++ "\x7d"
  | moment m => m.fieldText
  | knot id v => if around.contains id then v.ellipsis else innerOf (id :: around) v
  | endless => "..."

/-- The items of a list, each as it is shown inside. -/
def innerItems (around : List Nat) : List Value → List String
  | [] => []
  | x :: xs => innerOf around x :: innerItems around xs

/-- The entries of a map, each with a colon between key and value. -/
def innerEntries (around : List Nat) : List (Value × Value) → List String
  | [] => []
  | (k, v) :: es => (innerOf around k ++ ": " ++ innerOf around v) :: innerEntries around es

end

/-- A value as it is shown inside a collection. -/
def inner (v : Value) : String := innerOf [] v

/-- A value used as a text. -/
def display : Value → String
  | str s => s
  | moment m => m.isoText " "
  | v => v.inner

@[simp] theorem display_str (s : String) : display (str s) = s := rfl

end TypedClients.Value
