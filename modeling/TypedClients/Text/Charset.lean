import TypedClients.Text.Blank
import TypedClients.Text.Digit
import TypedClients.Text.Lower
import TypedClients.Text.Pieces

/-!
# Character sets of one byte

An answer of the network may say that its bytes are not UTF-8 but one of the older sets with a
byte for each character. A byte without a character is read as the replacement character.
-/

namespace TypedClients.Text

/-- The character sets that a text may come in. -/
inductive Charset
  | utf8
  | ascii
  | latin1
  | windows1252
  deriving DecidableEq, Repr

namespace Charset

/-- The character in place of a byte that has none. -/
def replacement : Char := Char.ofNat 0xFFFD

/-- What Windows 1252 has for the bytes from 0x80 to 0x9F; zero where it has nothing. -/
def windowsControls : List Nat :=
  [0x20AC, 0, 0x201A, 0x0192, 0x201E, 0x2026, 0x2020, 0x2021,
   0x02C6, 0x2030, 0x0160, 0x2039, 0x0152, 0, 0x017D, 0,
   0, 0x2018, 0x2019, 0x201C, 0x201D, 0x2022, 0x2013, 0x2014,
   0x02DC, 0x2122, 0x0161, 0x203A, 0x0153, 0, 0x017E, 0x0178]

/-- The character of a byte in a set of one byte; bytes of UTF-8 have one up to 0x7F. -/
def ofByte (set : Charset) (b : Nat) : Char :=
  if b < 0x80 then Char.ofNat b
  else match set with
    | utf8 | ascii => replacement
    | latin1 => Char.ofNat b
    | windows1252 =>
      if 0xA0 ≤ b then Char.ofNat b
      else match windowsControls[b - 0x80]? with
        | some (n + 1) => Char.ofNat (n + 1)
        | _ => replacement

/-- The text that the bytes of a text in UTF-8 are in a set. -/
def reread (set : Charset) (s : List Char) : List Char :=
  if set = utf8 then s
  else (s.flatMap String.utf8EncodeChar).map fun b => set.ofByte b.toNat

/-- The names of the sets, in small letters with underscores between their parts. -/
def names : List (String × Charset) :=
  [("ascii", ascii), ("us_ascii", ascii), ("us", ascii), ("646", ascii), ("cp367", ascii),
   ("latin1", latin1), ("latin_1", latin1), ("latin", latin1), ("l1", latin1),
   ("iso_8859_1", latin1), ("iso8859_1", latin1), ("iso8859", latin1), ("8859", latin1),
   ("cp819", latin1), ("windows_1252", windows1252), ("cp1252", windows1252), ("1252", windows1252)]

/-- The set of a name, in which anything but letters and digits separates. -/
def ofName (name : List Char) : Charset :=
  let part (c : Char) : Char := if isAsciiLetter c || isAsciiDigit c then lowerAscii c else '_'
  (names.lookup (String.ofList (name.map part))).getD utf8

/-- The value of a parameter without the quotes around it. -/
def unquoted (value : List Char) : List Char :=
  match value with
  | '\x22' :: rest => if rest.getLast? = some '\x22' then rest.dropLast else value
  | _ => value

/-- The set that a content type names in its parameters. -/
def ofContentType (contentType : List Char) : Charset :=
  let named (parameter : List Char) : Option (List Char) :=
    let name := trim (parameter.takeWhile (· ≠ '='))
    if name.map lowerAscii = "charset".toList then
      some (unquoted (trim ((parameter.dropWhile (· ≠ '=')).drop 1)))
    else none
  (((splitAt ';' contentType).findSome? named).map ofName).getD utf8

end Charset

end TypedClients.Text
