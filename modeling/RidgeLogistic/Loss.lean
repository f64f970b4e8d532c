import RidgeLogistic.Problem

/-!
# The penalised logistic loss

With the margin `m = -y (x · β)` of a sample at coefficients `β`,

    F(β)  = (1/N) Σ log (1 + exp m) + penalty * (β · β)
    ∇F(β) = (-1/N) Σ y w x + 2 * penalty * β,   w = exp m / (1 + exp m).

The exponential is taken as it stands. Where it overflows the objective is infinite,
while the weight `w` takes its limit one and the gradient stays an ordinary vector.
-/

namespace RidgeLogistic

variable {α : Type} [Scalar α] {d : Nat}

/-- How far a sample lies on the wrong side of the hyperplane of `β`. -/
def Sample.margin (s : Sample α d) (β : Vec α d) : α :=
  -(s.label.value * s.features.dot β)

def logisticLoss (m : α) : α :=
  Scalar.log (1 + Scalar.exp m)

/-- The slope of the logistic loss at a margin, with its limit one where the
exponential overflows. -/
def logisticWeight (m : α) : α :=
  let e := Scalar.exp m
  if Scalar.isInfinite e then 1 else e / (1 + e)

namespace Problem

/-- The mean loss over the samples plus the penalty on the squared length. -/
def objective (p : Problem α d) (penalty : α) (β : Vec α d) : α :=
  total (p.samples.map fun s => logisticLoss (s.margin β)) / (p.size : α) +
    penalty * β.dot β

/-- The sum over the samples of features times signed weight: the direction in which
the data pulls the coefficients. -/
def pull (p : Problem α d) (β : Vec α d) : Vec α d :=
  p.samples.foldl
    (fun sum s => sum + s.features * (s.label.value * logisticWeight (s.margin β))) 0

def gradient (p : Problem α d) (penalty : α) (β : Vec α d) : Vec α d :=
  p.pull β * (-1 / (p.size : α)) + β * (2.0 * penalty)

end Problem

def checkPenalty (penalty : α) : Except (Error α) Unit :=
  if 0 ≤ penalty ∧ Scalar.isFinite penalty then .ok ()
  else .error (.hyperparameter (.penalty penalty))

/-- The objective at `β` for data as it comes. -/
def objective (x : Table α) (y β : List α) (penalty : α) : Except (Error α) α := do
  let p ← Problem.ofData x y
  let β ← x.point .beta β
  checkPenalty penalty
  return p.objective penalty β

def gradient (x : Table α) (y β : List α) (penalty : α) :
    Except (Error α) (Vec α x.width) := do
  let p ← Problem.ofData x y
  let β ← x.point .beta β
  checkPenalty penalty
  return p.gradient penalty β

end RidgeLogistic
