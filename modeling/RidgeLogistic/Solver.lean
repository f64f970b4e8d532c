import RidgeLogistic.Descent

/-!
# Solvers

A solver is a set of parameters that has been accepted. What remains to be judged
when it runs is the data: whether it poses a problem, and whether the starting
points fit it. A run that is refused tells its observer nothing.

Each way of running comes twice: with any observer, and with the one that writes to
the log.
-/

namespace RidgeLogistic

structure Solver (α : Type) [Scalar α] where
  params : Params α
  accepted : params.check = .ok ()

variable {α : Type} [Scalar α] {σ : Type}

namespace Solver

/-- The solver with the given parameters, if they are acceptable. -/
def ofParams (params : Params α) : Except (Error α) (Solver α) :=
  match accepted : params.check with
  | .ok () => .ok { params, accepted }
  | .error fault => .error fault

def descendWith (solver : Solver α) (x : Table α) (y β : List α)
    (observer : Observer α x.width σ) (state : σ) :
    Except (Error α) (Logged α (Trajectory α x.width × σ)) := do
  let p ← Problem.ofData x y
  let β ← x.point .betaStart β
  return (fun (paths, state) => (paths.estimates, state)) <$>
    p.run .plain solver.params observer β β state

/-- Accelerated descent with the estimate `β` and the first step from `θ`. -/
def accelerateWith (solver : Solver α) (x : Table α) (y β θ : List α)
    (observer : Observer α x.width σ) (state : σ) :
    Except (Error α) (Logged α (Paths α x.width × σ)) := do
  let p ← Problem.ofData x y
  let β ← x.point .betaStart β
  let θ ← x.point .thetaStart θ
  return p.run .accelerated solver.params observer β θ state

/-- Plain descent that writes to the log. -/
def descend (solver : Solver α) (x : Table α) (y β : List α) :
    Except (Error α) (Logged α (Trajectory α x.width)) :=
  (Functor.map Prod.fst) <$>
    solver.descendWith x y β (Observer.logger solver.params.logEvery) ()

def accelerate (solver : Solver α) (x : Table α) (y β θ : List α) :
    Except (Error α) (Logged α (Paths α x.width)) :=
  (Functor.map Prod.fst) <$>
    solver.accelerateWith x y β θ (Observer.logger solver.params.logEvery) ()

end Solver

/-- Plain descent with the standard constants. -/
def descend (x : Table α) (y β : List α) (penalty step : α) (iterations : Nat) :
    Except (Error α) (Logged α (Trajectory α x.width)) := do
  let solver ← Solver.ofParams (Params.standard penalty step iterations)
  solver.descend x y β

def accelerate (x : Table α) (y β θ : List α) (penalty step : α) (iterations : Nat) :
    Except (Error α) (Logged α (Paths α x.width)) := do
  let solver ← Solver.ofParams (Params.standard penalty step iterations)
  solver.accelerate x y β θ

end RidgeLogistic
