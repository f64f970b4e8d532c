import RidgeLogistic.Log
import RidgeLogistic.Loss

/-!
# Backtracking

A search for a step along the negative gradient. From a first trial on it takes the
first step `η` with

    F(β - η ∇) < F(β) - decrease * η * |∇|²

and shrinks the step by a constant factor after each trial that fails, for a limited
number of trials. When they run out the search has stalled: it returns the last step
that it tried, and says so. A gradient of length zero needs no trial at all.
-/

namespace RidgeLogistic

structure Backtracking (α : Type) where
  /-- The fraction of the linear decrease that a step has to achieve. -/
  decrease : α
  /-- The factor between one trial step and the next. -/
  shrink : α
  maxTrials : Nat
  deriving DecidableEq, Repr

/-- How a search ended. -/
structure Found (α : Type) where
  /-- The step that was accepted, or the last one tried. -/
  step : α
  /-- Whether the step decreases the objective as demanded. -/
  accepted : Bool
  trials : Nat
  deriving DecidableEq, Repr

variable {α : Type} [Scalar α] {d : Nat}

namespace Backtracking

def standard : Backtracking α where
  decrease := 0.5
  shrink := 0.8
  maxTrials := 100

/-- Constants have to lie in the ranges in which the search makes sense. -/
def check (search : Backtracking α) : Except (Error α) Unit :=
  if ¬(0 < search.decrease ∧ search.decrease ≤ 0.5) then
    .error (.hyperparameter (.decrease search.decrease))
  else if ¬(0 < search.shrink ∧ search.shrink < 1) then
    .error (.hyperparameter (.shrink search.shrink))
  else if search.maxTrials = 0 then
    .error (.hyperparameter .maxTrials)
  else
    .ok ()

/-- Tries `step` and then smaller ones, `left` trials at most, after `tried` others.
The step shrinks only where another trial follows. -/
def tryFrom (search : Backtracking α) (objectiveAt bound : α → α) :
    (left tried : Nat) → α → Logged α (Found α)
  | 0, tried, step => pure { step, accepted := false, trials := tried }
  | left + 1, tried, step =>
    let value := objectiveAt step
    if value < bound step then
      pure { step, accepted := true, trials := tried + 1 }
    else do
      Logged.tell (.rejected step value)
      if left = 0 then
        pure { step, accepted := false, trials := tried + 1 }
      else
        search.tryFrom objectiveAt bound left (tried + 1) (step * search.shrink)

end Backtracking

/-- Searches from `β` against the vector `grad`, which for a run is the gradient
there. -/
def Problem.backtrack (p : Problem α d) (search : Backtracking α) (penalty : α)
    (β grad : Vec α d) (step : α) : Logged α (Found α) :=
  let slope := grad.dot grad
  if slope == 0 then
    pure { step, accepted := true, trials := 0 }
  else
    let current := p.objective penalty β
    search.tryFrom (fun η => p.objective penalty (β - grad * η))
      (fun η => current - search.decrease * η * slope) search.maxTrials 0 step

def checkStep (step : α) : Except (Error α) Unit :=
  if 0 < step ∧ Scalar.isFinite step then .ok ()
  else .error (.hyperparameter (.step step))

/-- The search from `β` for data as it comes, `step` being the first trial. -/
def lineSearch (x : Table α) (y β : List α) (penalty step : α)
    (search : Backtracking α) : Except (Error α) (Logged α (Found α)) := do
  let p ← Problem.ofData x y
  let β ← x.point .beta β
  checkPenalty penalty
  checkStep step
  search.check
  return p.backtrack search penalty β (p.gradient penalty β) step

end RidgeLogistic
