import RidgeLogistic.Decimal.Binary64

/-!
# The fewest digits that read back

A floating-point number is written with the fewest decimal digits that still round
to it, and with the nearest such digits to its value where several of that length
do. The numbers that round to a value form an interval, whose ends belong to it
exactly when the significand is even. On the grid of decimals with `k` digits only
the two neighbours of the value need to be tried: any other point of the grid is
farther away on the same side.

The text is positional for every size, with as many zeros as that takes, and a
whole number has no point.
-/

namespace RidgeLogistic.Decimal

/-- A positive number with the interval of the numbers that round to it, all
three over one denominator. -/
structure RoundingInterval where
  low : Nat
  value : Nat
  high : Nat
  den : Nat
  /-- Whether the ends belong to the interval. -/
  closed : Bool
  deriving DecidableEq, Repr

namespace RoundingInterval

/-- The interval of a positive finite number. It reaches half the gap to either
neighbour; below a power of two, where the exponent can still fall, the lower gap
is half as wide. In units of a quarter of the last place all ends are whole. -/
def ofBinary (significand : Nat) (exponent : Int) : RoundingInterval :=
  let narrow := significand = 1 <<< 52 ∧ exponent ≠ -1074
  let (unit, den) := binaryFraction 1 (exponent - 2)
  { low := (4 * significand - if narrow then 1 else 2) * unit
    value := 4 * significand * unit
    high := (4 * significand + 2) * unit
    den := den
    closed := significand % 2 = 0 }

def inUnitsOf (i : RoundingInterval) (p : Int) : RoundingInterval :=
  { i with
    low := (shift i.low i.den p).1
    value := (shift i.value i.den p).1
    high := (shift i.high i.den p).1
    den := (shift i.value i.den p).2 }

/-- Whether a whole number of units rounds to the value. -/
def contains (i : RoundingInterval) (n : Nat) : Bool :=
  if i.closed then i.low ≤ n * i.den ∧ n * i.den ≤ i.high
  else i.low < n * i.den ∧ n * i.den < i.high

/-- The whole number next to the value that rounds to it: the nearer one where
both do, and the upper one where both are equally near. -/
def nearest? (i : RoundingInterval) : Option Nat :=
  let below := i.value / i.den
  match i.contains below, i.contains (below + 1) with
  | true, true =>
    if 2 * (i.value % i.den) < i.den then some below else some (below + 1)
  | true, false => some below
  | false, true => some (below + 1)
  | false, false => none

/-- The digits that stand for the value, read as one number, and the power of ten
at the last of them. Going up to a power of ten takes one digit, not one more.
Seventeen digits always suffice, so the last resort, the digits of the value cut
off there, is never reached. -/
def digits (i : RoundingInterval) : Nat × Int :=
  let first := leadingExponent i.value i.den
  let onGrid (k : Nat) : Option (Nat × Int) :=
    (i.inUnitsOf (first - k)).nearest?.map fun n =>
      if n = Nat.pow 10 (k + 1) then (1, first + 1) else (n, first - k)
  let cut := i.inUnitsOf (first - 16)
  ((List.range 17).findSome? onGrid).getD (cut.value / cut.den, first - 16)

end RoundingInterval

/-- Digits with the power of ten of the last one, in positional notation. -/
def positional (digits : Nat) (power : Int) : String :=
  let text := Nat.toDigits 10 digits
  let zeros (n : Nat) : List Char := List.replicate n '0'
  match power with
  | .ofNat p => String.ofList (text ++ zeros p)
  | .negSucc p =>
    let places := p + 1
    if places < text.length then
      let whole := text.length - places
      String.ofList (text.take whole ++ '.' :: text.drop whole)
    else
      String.ofList ('0' :: '.' :: zeros (places - text.length) ++ text)

/-- The shortest text that reads back as the number. -/
def shortest (x : Float) : String :=
  match Binary64.ofFloat x with
  | .nan => "NaN"
  | .infinite negative => if negative then "-inf" else "inf"
  | .finite negative significand exponent =>
    let magnitude :=
      if significand = 0 then "0"
      else
        let (digits, power) := (RoundingInterval.ofBinary significand exponent).digits
        positional digits power
    if negative then "-" ++ magnitude else magnitude

end RidgeLogistic.Decimal
