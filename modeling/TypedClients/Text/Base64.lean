import TypedClients.Text.Digit

/-!
# Base64

Reading bytes that are written with 64 characters, four characters for three bytes. The
reading is lenient: characters outside the alphabet are passed over, and a padding that
completes a group ends the text. What it refuses is a text that ends inside a group.
-/

namespace TypedClients.Text.Base64

/-- The six bits that a character of the alphabet stands for. -/
def sextet? (c : Char) : Option Nat :=
  let n := c.toNat
  if 'A'.toNat ≤ n ∧ n ≤ 'Z'.toNat then some (n - 'A'.toNat)
  else if 'a'.toNat ≤ n ∧ n ≤ 'z'.toNat then some (n - 'a'.toNat + 26)
  else if isAsciiDigit c then some (n - '0'.toNat + 52)
  else if c = '+' then some 62
  else if c = '/' then some 63
  else none

/-- The bytes of a group; the bits that fill no byte are dropped. -/
def bytesOf : List Nat → List UInt8
  | [a, b, c, d] =>
    [UInt8.ofNat (a * 4 + b / 16), UInt8.ofNat (b % 16 * 16 + c / 4), UInt8.ofNat (c % 4 * 64 + d)]
  | [a, b, c] => [UInt8.ofNat (a * 4 + b / 16), UInt8.ofNat (b % 16 * 16 + c / 4)]
  | [a, b] => [UInt8.ofNat (a * 4 + b / 16)]
  | _ => []

/-- Bytes from the middle of a group on. `group` holds what came of it, `pads` counts the
padding right before the place. -/
def decodeFrom (group : List Nat) (pads : Nat) : List Char → Option (List UInt8)
  | [] => if group.isEmpty then some [] else none
  | c :: rest =>
    if c = '=' then
      if group.length < 2 then decodeFrom group pads rest
      else if group.length + pads < 3 then decodeFrom group (pads + 1) rest
      else some (bytesOf group)
    else match sextet? c with
      | none => decodeFrom group pads rest
      | some n =>
        if group.length < 3 then decodeFrom (group ++ [n]) 0 rest
        else (decodeFrom [] 0 rest).map (bytesOf (group ++ [n]) ++ ·)

/-- The bytes that a text stands for. -/
def decode? (s : List Char) : Option (List UInt8) := decodeFrom [] 0 s

end TypedClients.Text.Base64
