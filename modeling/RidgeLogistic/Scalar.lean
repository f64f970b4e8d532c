/-!
# Scalars

The arithmetic that the library computes with, as a class of operations without
laws. Everything from the loss to the estimator is written once over a `Scalar`:
the program runs on `Float`, whose arithmetic has next to no laws, and a theorem
that needs laws reads the same definitions over a scalar that has them.

The class carries the operations that the formulas use and no more. A comparison
may fail for unordered values, so every test of a range is written with the
comparison that has to hold.
-/

namespace RidgeLogistic

/-- The operations of the arithmetic in use: the field operations, the reading of
literals, the order as decidable relations, an equality test, the elementary
functions, and what there is of infinities. No law is assumed of any of them. -/
class Scalar (α : Type) where
  zero : α
  one : α
  ofNat : Nat → α
  /-- The number `m * 10 ^ e`, or `m / 10 ^ e` where the flag is set: how a
  decimal literal is read. -/
  ofDecimal : Nat → Bool → Nat → α
  add : α → α → α
  sub : α → α → α
  mul : α → α → α
  div : α → α → α
  neg : α → α
  lt : α → α → Prop
  le : α → α → Prop
  decideLt : ∀ a b : α, Decidable (lt a b)
  decideLe : ∀ a b : α, Decidable (le a b)
  equal : α → α → Bool
  exp : α → α
  log : α → α
  sqrt : α → α
  /-- Whether the value is an ordinary number, neither infinite nor undefined. -/
  isFinite : α → Bool
  /-- Whether the value is one of the infinities. -/
  isInfinite : α → Bool
  /-- The nearest natural number to a non-negative value, a half going up. -/
  roundNat : α → Nat

section Instances

/-! The operations in their usual form. An arithmetic that has such instances of
its own keeps them: these are tried last. -/

variable {α : Type} [Scalar α]

instance (priority := 50) Scalar.instZero : Zero α := ⟨Scalar.zero⟩

instance (priority := 50) Scalar.instOne : One α := ⟨Scalar.one⟩

instance (priority := 50) Scalar.instNatCast : NatCast α := ⟨Scalar.ofNat⟩

instance (priority := 50) Scalar.instOfScientific : OfScientific α := ⟨Scalar.ofDecimal⟩

instance (priority := 50) Scalar.instAdd : Add α := ⟨Scalar.add⟩

instance (priority := 50) Scalar.instSub : Sub α := ⟨Scalar.sub⟩

instance (priority := 50) Scalar.instMul : Mul α := ⟨Scalar.mul⟩

instance (priority := 50) Scalar.instDiv : Div α := ⟨Scalar.div⟩

instance (priority := 50) Scalar.instNeg : Neg α := ⟨Scalar.neg⟩

instance (priority := 50) Scalar.instLT : LT α := ⟨Scalar.lt⟩

instance (priority := 50) Scalar.instLE : LE α := ⟨Scalar.le⟩

instance (priority := 50) Scalar.instBEq : BEq α := ⟨Scalar.equal⟩

instance (priority := 50) Scalar.instDecidableLT (a b : α) : Decidable (a < b) :=
  Scalar.decideLt a b

instance (priority := 50) Scalar.instDecidableLE (a b : α) : Decidable (a ≤ b) :=
  Scalar.decideLe a b

end Instances

/-- Binary floating-point numbers, which the program computes with. -/
instance : Scalar Float where
  zero := 0.0
  one := 1.0
  ofNat := Float.ofNat
  ofDecimal := Float.ofScientific
  add := (· + ·)
  sub := (· - ·)
  mul := (· * ·)
  div := (· / ·)
  neg := (- ·)
  lt := (· < ·)
  le := (· ≤ ·)
  decideLt := fun _ _ => inferInstance
  decideLe := fun _ _ => inferInstance
  equal := (· == ·)
  exp := Float.exp
  log := Float.log
  sqrt := Float.sqrt
  isFinite := Float.isFinite
  isInfinite := Float.isInf
  roundNat := fun x => x.round.toUInt64.toNat

/-- The sum of a list, taken from the left and starting from zero. -/
def total {α : Type} [Scalar α] (xs : List α) : α :=
  xs.foldl (· + ·) 0

end RidgeLogistic
