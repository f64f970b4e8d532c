/-!
# Floating-point numbers as exact fractions

Decimal text is made in exact arithmetic, so a floating-point number is first taken
apart into sign, significand and binary exponent. The other half of the work is
the size of a positive fraction: `leadingExponent` finds the power of ten that its
first digit stands at.
-/

namespace RidgeLogistic.Decimal

/-- What a floating-point number stands for. A finite one is its significand times
two to the power of its exponent; a zero keeps its sign. -/
inductive Binary64 where
  | nan
  | infinite (negative : Bool)
  | finite (negative : Bool) (significand : Nat) (exponent : Int)
  deriving DecidableEq, Repr

/-- Reads the fields of the bit pattern: the sign, eleven bits of exponent, and
fifty-two bits of fraction with a leading one that only normal numbers have. -/
def Binary64.ofFloat (x : Float) : Binary64 :=
  let bits := x.toBits.toNat
  let negative := bits >>> 63 == 1
  let field : Nat := (bits >>> 52) % (1 <<< 11)
  let fraction := bits % (1 <<< 52)
  if field = 2047 then
    if fraction = 0 then .infinite negative else .nan
  else if field = 0 then
    .finite negative fraction (-1074)
  else
    .finite negative (1 <<< 52 + fraction) ((field : Int) - 1075)

/-- How many decimal digits a natural number has; zero has none. -/
def digitCount (n : Nat) : Nat :=
  if n = 0 then 0 else digitCount (n / 10) + 1

/-- The least number of multiplications by ten that bring `num` up to `den`. -/
def shortfall (num den : Nat) : Nat :=
  if num = 0 ∨ den ≤ num then 0 else shortfall (10 * num) den + 1
  termination_by den - num

/-- The exponent of ten at the first digit of the positive fraction `num / den`:
the greatest `e` with `10 ^ e ≤ num / den`. -/
def leadingExponent (num den : Nat) : Int :=
  if den ≤ num then digitCount (num / den) - 1 else -shortfall num den

/-- A fraction divided by a power of ten, as numerator and denominator. -/
def shift (num den : Nat) : Int → Nat × Nat
  | .ofNat p => (num, den * Nat.pow 10 p)
  | .negSucc p => (num * Nat.pow 10 (p + 1), den)

/-- The fraction `significand * 2 ^ exponent`. -/
def binaryFraction (significand : Nat) : Int → Nat × Nat
  | .ofNat q => (significand <<< q, 1)
  | .negSucc q => (significand, 1 <<< (q + 1))

end RidgeLogistic.Decimal
