/-!
# Digits

Two classes of digits. A *decimal* digit belongs to one of the runs of ten that Unicode's
positional numeral systems have; a *digit* is a decimal one or one of the superscript, circled and
other forms that stand for a digit without being used positionally.

* `isDigit_of_isDecimal`: every decimal digit is a digit.
* `digitValue?_ascii`: the ASCII digits have their usual values.
-/

namespace TypedClients.Text

/-- The zeros of the positional numeral systems, in code-point order. -/
def decimalZeros : List Nat :=
  [0x30, 0x660, 0x6F0, 0x7C0, 0x966, 0x9E6, 0xA66, 0xAE6, 0xB66, 0xBE6,
   0xC66, 0xCE6, 0xD66, 0xDE6, 0xE50, 0xED0, 0xF20, 0x1040, 0x1090, 0x17E0,
   0x1810, 0x1946, 0x19D0, 0x1A80, 0x1A90, 0x1B50, 0x1BB0, 0x1C40, 0x1C50, 0xA620,
   0xA8D0, 0xA900, 0xA9D0, 0xA9F0, 0xAA50, 0xABF0, 0xFF10, 0x104A0, 0x10D30, 0x11066,
   0x110F0, 0x11136, 0x111D0, 0x112F0, 0x11450, 0x114D0, 0x11650, 0x116C0, 0x11730, 0x118E0,
   0x11950, 0x11C50, 0x11D50, 0x11DA0, 0x16A60, 0x16AC0, 0x16B50, 0x1D7CE, 0x1D7D8, 0x1D7E2,
   0x1D7EC, 0x1D7F6, 0x1E140, 0x1E2F0, 0x1E950, 0x1FBF0]

/-- The ranges, ends included, of the digits that are not positional. -/
def otherDigitRanges : List (Nat × Nat) :=
  [(0xB2, 0xB3), (0xB9, 0xB9), (0x1369, 0x1371), (0x19DA, 0x19DA), (0x2070, 0x2070),
   (0x2074, 0x2079), (0x2080, 0x2089), (0x2460, 0x2468), (0x2474, 0x247C), (0x2488, 0x2490),
   (0x24EA, 0x24EA), (0x24F5, 0x24FD), (0x24FF, 0x24FF), (0x2776, 0x277E), (0x2780, 0x2788),
   (0x278A, 0x2792), (0x10A40, 0x10A43), (0x10E60, 0x10E68), (0x11052, 0x1105A), (0x1F100, 0x1F10A)]

/-- The value of a decimal digit. -/
def digitValue? (c : Char) : Option Nat :=
  (decimalZeros.find? fun z => z ≤ c.toNat && c.toNat < z + 10).map (c.toNat - ·)

/-- Whether a character is a decimal digit of some numeral system. -/
def isDecimal (c : Char) : Bool := (digitValue? c).isSome

/-- Whether a character stands for a digit, positional or not. -/
def isDigit (c : Char) : Bool :=
  isDecimal c || otherDigitRanges.any fun (a, b) => a ≤ c.toNat && c.toNat ≤ b

/-- The value of a text of decimal digits, most significant first; none if it is empty or
holds any other character. -/
def decimalValue? (s : List Char) : Option Nat :=
  if s.isEmpty then none
  else s.foldlM (fun n c => (digitValue? c).map (10 * n + ·)) 0

/-- Whether a character is one of the ten ASCII digits. -/
def isAsciiDigit (c : Char) : Bool := '0'.toNat ≤ c.toNat && c.toNat ≤ '9'.toNat

/-- Whether a character is an ASCII letter. -/
def isAsciiLetter (c : Char) : Bool :=
  ('a'.toNat ≤ c.toNat && c.toNat ≤ 'z'.toNat) || ('A'.toNat ≤ c.toNat && c.toNat ≤ 'Z'.toNat)

/-- The value of a hexadecimal ASCII digit, in either case. -/
def hexValue? (c : Char) : Option Nat :=
  let n := c.toNat
  if isAsciiDigit c then some (n - 0x30)
  else if 0x41 ≤ n && n ≤ 0x46 then some (n - 0x37)
  else if 0x61 ≤ n && n ≤ 0x66 then some (n - 0x57)
  else none

/-- The hexadecimal digit of a value below sixteen, in lower case. -/
def hexDigit (n : Nat) : Char := if n < 10 then Char.ofNat (0x30 + n) else Char.ofNat (0x57 + n)

/-- A number in hexadecimal, in lower case, with leading zeros up to a width. -/
def hexText : Nat → Nat → List Char
  | 0, _ => []
  | width + 1, n => hexText width (n / 16) ++ [hexDigit (n % 16)]

theorem isDigit_of_isDecimal {c : Char} (h : isDecimal c = true) : isDigit c = true := by
  simp [isDigit, h]

theorem digitValue?_ascii {c : Char} (h : isAsciiDigit c = true) :
    digitValue? c = some (c.toNat - 0x30) := by
  have h' : 48 ≤ c.toNat ∧ c.toNat < 58 := by
    simp only [isAsciiDigit, Bool.and_eq_true, decide_eq_true_eq] at h
    exact ⟨h.1, Nat.lt_succ_of_le h.2⟩
  simp [digitValue?, decimalZeros, h'.1, h'.2]

end TypedClients.Text
