/-!
# The exact value of a double

A double is decoded from its 64 bits into a sign, a natural mantissa and a power of two, so that
comparing, rounding and printing it is arithmetic on whole numbers.

* `FloatValue.toInt?`: the integer a double is, where it is one.
-/

namespace TypedClients.Number

/-- What the bits of a double stand for; a finite one is `± mantissa * 2 ^ exponent`. -/
inductive FloatValue
  | nan
  | infinite (negative : Bool)
  | finite (negative : Bool) (mantissa : Nat) (exponent : Int)
  deriving DecidableEq, Repr

/-- The value that 64 bits encode. A subnormal has no implied leading bit. -/
def FloatValue.ofBits (bits : Nat) : FloatValue :=
  let negative := bits / Nat.pow 2 63 % 2 == 1
  let biased : Nat := bits / Nat.pow 2 52 % Nat.pow 2 11
  let fraction : Nat := bits % Nat.pow 2 52
  if biased == Nat.pow 2 11 - 1 then
    if fraction == 0 then .infinite negative else .nan
  else if biased == 0 then .finite negative fraction (-1074)
  else .finite negative (fraction + Nat.pow 2 52) ((biased : Int) - 1075)

/-- The value of a double. -/
def FloatValue.ofFloat (x : Float) : FloatValue := .ofBits x.toBits.toNat

/-- The integer that a finite double is equal to, if it has no fractional part. -/
def FloatValue.toInt? : FloatValue → Option Int
  | .finite negative m e =>
    let signed (n : Nat) : Int := if negative then -(n : Int) else n
    match e with
    | .ofNat k => some (signed (m * Nat.pow 2 k))
    | .negSucc k =>
      if m % Nat.pow 2 (k + 1) == 0 then some (signed (m / Nat.pow 2 (k + 1))) else none
  | _ => none

/-- The least natural number that is too large for a signed 64-bit word. -/
def wordLimit : Nat := Nat.pow 2 63

/-- The least natural number that is too large for a signed 32-bit word. -/
def wordHalf : Nat := Nat.pow 2 31

/-! ## The double nearest to a decimal -/

/-- The double nearest to `mantissa * 10 ^ exponent`; infinity above the range and zero below.
What is certainly out of range is settled before the power is computed, so a long exponent
costs nothing. -/
def floatOfDecimal (mantissa : Nat) (exponent : Int) : Float :=
  let size := (Nat.log2 mantissa : Int) * 30103 / 100000 + exponent
  if mantissa == 0 then 0.0
  else if size > 400 then Float.ofBits 0x7FF0000000000000
  else if size < -400 then 0.0
  else if exponent < 0 then Float.ofScientific mantissa true exponent.natAbs
  else Float.ofScientific mantissa false exponent.natAbs

/-- A double with the opposite sign if the flag is set. -/
def withSign (negative : Bool) (x : Float) : Float := if negative then -x else x

/-- Positive infinity. -/
def infinity : Float := Float.ofBits 0x7FF0000000000000

/-- The value that is no number. -/
def notANumber : Float := Float.ofBits 0x7FF8000000000000

end TypedClients.Number
