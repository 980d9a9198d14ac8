import TypedClients.Number.Binary
import TypedClients.Number.Digits

/-!
# The shortest decimal that reads back

A finite double owns an interval of reals: those that round to it. `shortest` looks for the
decimal with the fewest digits inside that interval, and among those with as many digits for
the one nearest to the double. For each number of digits only the two neighbours of the double
on the decimal grid have to be tested: if any grid point lies in the interval, one of them
does.

`FloatStyle` says how the digits are laid out; `plainFloat` is the layout used everywhere here.
-/

namespace TypedClients.Number

/-- A decimal `digits * 10 ^ exponent`. -/
structure Scaled where
  digits : Nat
  exponent : Int
  deriving DecidableEq, Repr

/-- Nonnegative rational bounds and centre over one denominator. The ends belong to the interval
when `closed` holds. -/
structure RoundingInterval where
  low : Nat
  centre : Nat
  high : Nat
  denominator : Nat
  closed : Bool

/-- The reals that round to a double with the given mantissa and exponent. Below a power of two
the doubles are twice as dense, so there the lower end is half as far away. -/
def RoundingInterval.of (mantissa : Nat) (exponent : Int) : RoundingInterval :=
  let below := if mantissa == Nat.pow 2 52 && exponent > -1074 then 1 else 2
  let (num, den) : Nat × Nat :=
    match exponent - 2 with
    | .ofNat k => (Nat.pow 2 k, 1)
    | .negSucc k => (1, Nat.pow 2 (k + 1))
  { low := (4 * mantissa - below) * num
    centre := 4 * mantissa * num
    high := (4 * mantissa + 2) * num
    denominator := den
    closed := mantissa % 2 == 0 }

/-- The same interval measured in units of `10 ^ unit`. -/
def RoundingInterval.inUnits (r : RoundingInterval) (unit : Int) : RoundingInterval :=
  match unit with
  | .ofNat k => { r with denominator := r.denominator * Nat.pow 10 k }
  | .negSucc k =>
    { r with
      low := r.low * Nat.pow 10 (k + 1)
      centre := r.centre * Nat.pow 10 (k + 1)
      high := r.high * Nat.pow 10 (k + 1) }

/-- Whether a whole number of units lies in the interval. -/
def RoundingInterval.holds (r : RoundingInterval) (d : Nat) : Bool :=
  let x := d * r.denominator
  if r.closed then r.low ≤ x && x ≤ r.high else r.low < x && x < r.high

/-- The whole number of units nearest to the centre that lies in the interval, if either
neighbour of the centre does; of two equally near ones the even one. -/
def RoundingInterval.nearest? (r : RoundingInterval) : Option Nat :=
  let d := r.centre / r.denominator
  let rest := r.centre % r.denominator
  let upFirst := r.denominator < 2 * rest || (2 * rest == r.denominator && d % 2 == 1)
  let order := if upFirst then [d + 1, d] else [d, d + 1]
  order.find? fun n => 0 < n && r.holds n

/-- The number of digits before the point of `num / den`, not positive for numbers below one;
the number is at least one unit of the last place tried. -/
def magnitude (num den : Nat) : Int :=
  if den ≤ num then (digits (num / den)).length
  else
    let shift := (digits (den / num)).length
    if den ≤ num * Nat.pow 10 (shift - 1) then 2 - (shift : Int) else 1 - (shift : Int)

/-- The decimal with the fewest digits that rounds to the double, and the nearest such one. -/
def shortest (mantissa : Nat) (exponent : Int) : Scaled :=
  let r := RoundingInterval.of mantissa exponent
  let places := magnitude r.centre r.denominator
  let tries := (List.range 17).map fun (n : Nat) => places - ((n : Int) + 1)
  match tries.findSome? fun unit => (r.inUnits unit).nearest?.map (Scaled.mk · unit) with
  | some s => s
  | none => ⟨r.centre / r.denominator, 0⟩

/-- How a decimal is laid out. A number is written positionally if its first digit stands at a
place from `leastPlace` to `greatestPlace`, the place of units being `0`; otherwise with an
exponent of at least `exponentWidth` digits. -/
structure FloatStyle where
  leastPlace : Int
  greatestPlace : Int
  exponentWidth : Nat
  nan : String
  infinity : String

/-- Positional from `0.0001` up to below `10 ^ 16`, with a digit after the point in any case. -/
def plainFloat : FloatStyle := ⟨-4, 15, 2, "nan", "inf"⟩

/-- The layout of the digits of a positive decimal. -/
def FloatStyle.layOut (style : FloatStyle) (s : Scaled) : List Char :=
  let ds := ((digits s.digits).reverse.dropWhile (· == '0')).reverse
  let place : Int := ((digits s.digits).length : Int) + s.exponent - 1
  if style.leastPlace ≤ place && place ≤ style.greatestPlace then
    match place with
    | .ofNat k =>
      let whole := ds.take (k + 1) ++ List.replicate (k + 1 - ds.length) '0'
      let fraction := ds.drop (k + 1)
      whole ++ '.' :: (if fraction.isEmpty then ['0'] else fraction)
    | .negSucc k => '0' :: '.' :: (List.replicate k '0' ++ ds)
  else
    let lead := ds.take 1 ++ (if ds.length ≤ 1 then [] else '.' :: ds.drop 1)
    let power := digits place.natAbs
    lead ++ 'e' :: (if place < 0 then '-' else '+') ::
      (List.replicate (style.exponentWidth - power.length) '0' ++ power)

/-- The text of a double in a style. -/
def FloatStyle.text (style : FloatStyle) : FloatValue → List Char
  | .nan => style.nan.toList
  | .infinite negative => (if negative then ['-'] else []) ++ style.infinity.toList
  | .finite negative m e =>
    (if negative then ['-'] else []) ++
      (if m == 0 then ['0', '.', '0'] else style.layOut (shortest m e))

end TypedClients.Number
