import RidgeLogistic.Decimal.Binary64

/-!
# Scientific notation

One digit before the point, a fixed number of places after it, and the exponent of
ten in its plain decimal form. The places come from the exact value of the number,
a half going to the even neighbour.
-/

namespace RidgeLogistic.Decimal

/-- How numbers are written in scientific notation. -/
structure Scientific where
  places : Nat
  /-- Whether the zeros at the end of the places are dropped, and the point with
  them where nothing is left. -/
  trimmed : Bool := false
  /-- Whether a negative zero shows its sign. -/
  signedZero : Bool := true
  deriving DecidableEq, Repr

/-- The fraction `num / den` as the nearest whole number, a half going to the even
one. -/
def roundHalfEven (num den : Nat) : Nat :=
  let below := num / den
  let twice := 2 * (num % den)
  if twice < den ∨ twice = den ∧ below % 2 = 0 then below else below + 1

/-- The first `places + 1` digits of a positive fraction, read as one number, and
the exponent of the first of them. Rounding up may carry into one more digit,
which is then a zero at the end. -/
def leadingDigits (places num den : Nat) : Nat × Int :=
  let first := leadingExponent num den
  let scaled := shift num den (first - places)
  let digits := roundHalfEven scaled.1 scaled.2
  if digits = Nat.pow 10 (places + 1) then (digits / 10, first + 1) else (digits, first)

namespace Scientific

/-- The text of some digits, the first of which stands at the given exponent. -/
def layout (format : Scientific) (digits : List Char) (exponent : Int) : String :=
  let fraction := digits.drop 1
  let kept :=
    if format.trimmed then (fraction.reverse.dropWhile (· == '0')).reverse else fraction
  let point := if kept.isEmpty then [] else '.' :: kept
  String.ofList (digits.take 1 ++ point) ++ "e" ++ toString exponent

def render (format : Scientific) (x : Float) : String :=
  match Binary64.ofFloat x with
  | .nan => "NaN"
  | .infinite negative => if negative then "-inf" else "inf"
  | .finite negative significand exponent =>
    if significand = 0 then
      let zero := format.layout (List.replicate (format.places + 1) '0') 0
      if negative && format.signedZero then "-" ++ zero else zero
    else
      let (num, den) := binaryFraction significand exponent
      let (digits, first) := leadingDigits format.places num den
      let magnitude := format.layout (Nat.toDigits 10 digits) first
      if negative then "-" ++ magnitude else magnitude

end Scientific

end RidgeLogistic.Decimal
