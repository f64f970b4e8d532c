import RidgeLogistic.Problem

/-!
# Decisions

A score is turned into a probability by the logistic function, which is clamped far
from zero, and the positive label is decided for when the probability exceeds one
half. A score of zero therefore decides for the negative label.
-/

namespace RidgeLogistic

variable {α : Type} [Scalar α] {d : Nat}

/-- The logistic function, one and zero beyond five hundred on either side. -/
def sigmoid (z : α) : α :=
  if 500.0 < z then 1
  else if z < -500.0 then 0
  else 1 / (1 + Scalar.exp (-z))

def Label.ofProbability (p : α) : Label :=
  if 0.5 < p then .positive else .negative

/-- Whether coefficients decide for the other label than the sample has. -/
def Sample.misclassified (s : Sample α d) (β : Vec α d) : Bool :=
  Label.ofProbability (sigmoid (s.features.dot β)) != s.label

def Problem.misclassification (p : Problem α d) (β : Vec α d) : α :=
  (p.samples.countP (·.misclassified β) : α) / (p.size : α)

def misclassification (x : Table α) (y β : List α) : Except (Error α) α := do
  let p ← Problem.ofData x y
  let β ← x.point .beta β
  return p.misclassification β

end RidgeLogistic
