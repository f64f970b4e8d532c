import RidgeLogistic.Backtracking
import RidgeLogistic.Observer
import RidgeLogistic.Trajectory

/-!
# Descent

The iteration that both schemes share. The state between two iterations is the
current estimate `β` and the point `θ` that the next step starts from. Iteration
`k`, counted from zero, searches along the gradient at `θ`, and

    β' = θ - η ∇F(θ)
    θ' = β'                              in the plain scheme,
    θ' = β' + (β' - β) * (k / (k + 3))   in the accelerated one.

The gradient at `θ` is taken once, when an iteration arrives there, and carried to
the search of the next one. A stalled search ends nothing: it is reported and its last
step is taken. The observer learns of a stall before it learns of the step.
-/

namespace RidgeLogistic

variable {α : Type} [Scalar α] {d : Nat} {σ : Type}

structure Params (α : Type) where
  penalty : α
  /-- The first trial of every search. -/
  step : α
  iterations : Nat
  search : Backtracking α
  /-- How many iterations lie between two progress records. -/
  logEvery : Nat
  deriving DecidableEq, Repr

namespace Params

/-- The constants of the search and the interval between records that are used where
none are chosen. -/
def standard (penalty step : α) (iterations : Nat) : Params α where
  penalty := penalty
  step := step
  iterations := iterations
  search := .standard
  logEvery := Observer.standardInterval

def check (params : Params α) : Except (Error α) Unit := do
  checkPenalty params.penalty
  checkStep params.step
  params.search.check

end Params

structure Iterate (α : Type) (d : Nat) where
  /-- The solution as far as it is known. -/
  estimate : Vec α d
  /-- Where the next step starts. -/
  origin : Vec α d
  /-- What the next search runs against: the gradient that was taken at the origin. -/
  grad : Vec α d

/-- Where the step after iteration `k` starts, which moved the estimate to the point
`reached`. -/
def Scheme.origin (scheme : Scheme) (k : Nat) (estimate reached : Vec α d) : Vec α d :=
  match scheme with
  | plain => reached
  | accelerated =>
    let weight : α := (k : α) / ((k : α) + 3.0)
    reached + (reached - estimate) * weight

theorem Scheme.origin_accelerated (k : Nat) (estimate reached : Vec α d) :
    accelerated.origin k estimate reached =
      reached + (reached - estimate) * ((k : α) / ((k : α) + 3.0)) := rfl

/-- What there is to report of an iteration, given how its search ended and the point
that it reached. -/
def Scheme.events (scheme : Scheme) (iteration : Nat) (found : Found α)
    (reached : Vec α d) : List (Event α d) :=
  let step := .stepped scheme.title iteration reached found.step
  if found.accepted then [step]
  else [.stalled scheme.title iteration found.step found.trials, step]

namespace Problem

/-- The state that has arrived at an estimate and an origin: the gradient there is
taken now. -/
def arrive (p : Problem α d) (penalty : α) (estimate origin : Vec α d) : Iterate α d :=
  { estimate, origin, grad := p.gradient penalty origin }

/-- The states that `left` iterations go through, the first of them having the
number `k`, and what the observer makes of it. -/
def iterate (p : Problem α d) (scheme : Scheme) (params : Params α)
    (observer : Observer α d σ) :
    (left k : Nat) → Iterate α d → σ → Logged α (List (Iterate α d) × σ)
  | 0, _, _, state => pure ([], state)
  | left + 1, k, it, state => do
    let found ← p.backtrack params.search params.penalty it.origin it.grad params.step
    let reached := it.origin - it.grad * found.step
    let next := p.arrive params.penalty reached (scheme.origin k it.estimate reached)
    let state ← observer.notifyAll (scheme.events (k + 1) found reached) state
    (fun (later, state) => (next :: later, state)) <$>
      p.iterate scheme params observer left (k + 1) next state

end Problem

/-- The two trajectories of a run: its estimates, and the points that its steps
started from. -/
structure Paths (α : Type) (d : Nat) where
  estimates : Trajectory α d
  origins : Trajectory α d

/-- The trajectories of a run that started in one state and went through others. -/
def Paths.ofIterates (start : Iterate α d) (later : List (Iterate α d)) : Paths α d where
  estimates := { start := start.estimate, later := later.map Iterate.estimate }
  origins := { start := start.origin, later := later.map Iterate.origin }

/-- A whole run on a problem, from an estimate and the point that the first step starts
from. -/
def Problem.run (p : Problem α d) (scheme : Scheme) (params : Params α)
    (observer : Observer α d σ) (estimate origin : Vec α d) (state : σ) :
    Logged α (Paths α d × σ) :=
  let start := p.arrive params.penalty estimate origin
  (fun (later, state) => (Paths.ofIterates start later, state)) <$>
    p.iterate scheme params observer params.iterations 0 start state

end RidgeLogistic
