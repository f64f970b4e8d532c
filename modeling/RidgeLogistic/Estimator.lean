import RidgeLogistic.Decision
import RidgeLogistic.InitialStep
import RidgeLogistic.Solver

/-!
# The estimator

A model with its settings and what the last fit left in it. Fitting runs a solver
from zero on the design, which is the table itself or, with an intercept, the table
with a column of ones in front; the intercept is penalised like any other
coefficient. A fit that fails leaves the model as it was, since it yields none.

What a fit leaves may be replaced by hand, and the settings may change after it. The
probabilities take what is there, the intercept included, whatever the settings are; the
other evaluations build the design and the coefficients that the present settings ask for.
-/

namespace RidgeLogistic

/-- What is chosen before a fit. -/
structure Settings (α : Type) where
  scheme : Scheme
  penalty : α
  /-- The first trial step, where it is not to be derived from the data. -/
  step : Option α
  iterations : Nat
  search : Backtracking α
  intercept : Bool
  deriving DecidableEq, Repr

/-- One choice among the settings. -/
inductive Setting (α : Type) where
  | scheme (scheme : Scheme)
  | penalty (penalty : α)
  | step (step : α)
  | iterations (iterations : Nat)
  | search (search : Backtracking α)
  | intercept (intercept : Bool)
  deriving DecidableEq, Repr

structure Estimator (α : Type) where
  settings : Settings α
  coefficients : Option (List α)
  intercept : Option α
  /-- The estimates of the last fit, on the design that it was made on. -/
  path : Option (Σ d, Trajectory α d)

variable {α : Type} [Scalar α]

namespace Settings

def standard : Settings α where
  scheme := .accelerated
  penalty := 0.1
  step := none
  iterations := 300
  search := .standard
  intercept := false

/-- The settings with one choice made anew. A first step once chosen stays chosen: no
choice gives it back to the data. -/
def set (settings : Settings α) : Setting α → Settings α
  | .scheme scheme => { settings with scheme }
  | .penalty penalty => { settings with penalty }
  | .step step => { settings with step := some step }
  | .iterations iterations => { settings with iterations }
  | .search search => { settings with search }
  | .intercept intercept => { settings with intercept }

/-- The table that a model with these settings works on. -/
def design (settings : Settings α) (x : Table α) : Table α :=
  if settings.intercept then x.withOnes else x

def firstStep [Eigensolver α] (settings : Settings α) (design : Table α) :
    Except (Error α) α :=
  match settings.step with
  | some step => .ok step
  | none => initialStep design design.height design.width settings.penalty

/-- The parameters of a run, given its first step. -/
def params (settings : Settings α) (step : α) : Params α :=
  { Params.standard settings.penalty step settings.iterations with
    search := settings.search }

/-- The estimates of the run from zero that the settings ask for. -/
def run [Eigensolver α] (settings : Settings α) (design : Table α) (y : List α) :
    Except (Error α) (Logged α (Trajectory α design.width)) := do
  let step ← settings.firstStep design
  let solver ← Solver.ofParams (settings.params step)
  let origin := List.replicate design.width 0
  match settings.scheme with
  | .plain => solver.descend design y origin
  | .accelerated =>
    return Paths.estimates <$> (← solver.accelerate design y origin origin)

end Settings

namespace Estimator

def ofSettings (settings : Settings α) : Estimator α where
  settings := settings
  coefficients := none
  intercept := none
  path := none

/-- The model with one setting chosen anew. What the last fit left stays. -/
def set (model : Estimator α) (setting : Setting α) : Estimator α :=
  { model with settings := model.settings.set setting }

/-- The model that a trajectory of estimates leaves: its last point is the solution,
with the intercept in front where one is fitted. -/
def keep {d : Nat} (model : Estimator α) (path : Trajectory α d) : Estimator α :=
  let solution := path.last.toList
  if model.settings.intercept then
    { model with
      coefficients := some solution.tail
      intercept := some (solution.headD 0)
      path := some ⟨d, path⟩ }
  else
    { model with
      coefficients := some solution
      intercept := some 0
      path := some ⟨d, path⟩ }

/-- Fits the model. The record of a fit follows those of its run. -/
def fit [Eigensolver α] (model : Estimator α) (x : Table α) (y : List α) :
    Except (Error α) (Logged α (Estimator α)) := do
  let _ ← Problem.ofData x y
  let run ← model.settings.run (model.settings.design x) y
  return do
    let path ← run
    Logged.tell (.fitted model.settings.scheme model.settings.penalty
      model.settings.iterations)
    pure (model.keep path)

def probabilities (model : Estimator α) (x : Table α) : Except (Error α) (List α) :=
  match model.coefficients with
  | none => .error .notFitted
  | some coefficients => do
    let β ← x.point .coefficients coefficients
    return x.rows.map fun row => sigmoid (row.dot β + model.intercept.getD 0)

def predict (model : Estimator α) (x : Table α) : Except (Error α) (List Label) := do
  return (← model.probabilities x).map Label.ofProbability

/-- The design of a table under the present settings, and the coefficients on it. -/
def onDesign (model : Estimator α) (x : Table α) :
    Except (Error α) (Table α × List α) :=
  match model.coefficients with
  | none => .error .notFitted
  | some coefficients =>
    if model.settings.intercept then
      .ok (x.withOnes, model.intercept.getD 0 :: coefficients)
    else
      .ok (x, coefficients)

def errorRate (model : Estimator α) (x : Table α) (y : List α) :
    Except (Error α) α := do
  let (design, β) ← model.onDesign x
  misclassification design y β

def score (model : Estimator α) (x : Table α) (y : List α) : Except (Error α) α := do
  return 1 - (← model.errorRate x y)

/-- The objective of the model on other data, with the penalty as it is set: it is not
judged here, where nothing is fitted. -/
def objectiveValue (model : Estimator α) (x : Table α) (y : List α) :
    Except (Error α) α := do
  let _ ← Problem.ofData x y
  let (design, β) ← model.onDesign x
  let p ← Problem.ofData design y
  let β ← design.point .coefficients β
  return p.objective model.settings.penalty β

end Estimator

end RidgeLogistic
