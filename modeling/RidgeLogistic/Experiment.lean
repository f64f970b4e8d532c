import RidgeLogistic.Dataset
import RidgeLogistic.Estimator
import RidgeLogistic.Standardizer

/-!
# Experiments

The whole way from a seed to scores: a simulated dataset is split, its features are
standardised by the statistics of the part to fit on, a model is fitted on that part,
and both parts are scored. The first step that fails is the outcome.
-/

namespace RidgeLogistic

structure Experiment (α : Type) where
  samples : Nat
  features : Nat
  seed : UInt64
  testSize : α
  splitSeed : UInt64
  settings : Settings α

/-- How a model does on some data; each figure may be refused by itself. -/
structure Scores (α : Type) where
  size : Nat
  objective : Except (Error α) α
  errorRate : Except (Error α) α
  score : Except (Error α) α

structure Report (α : Type) where
  model : Estimator α
  train : Scores α
  test : Scores α

variable {α : Type} [Scalar α]

def Estimator.scores (model : Estimator α) (x : Table α) (y : List α) : Scores α where
  size := x.height
  objective := model.objectiveValue x y
  errorRate := model.errorRate x y
  score := model.score x y

/-- Fits a model on one part of a dataset and scores it on both, all features being
standardised by the statistics of the part to fit on. -/
def Split.evaluate [Eigensolver α] (parts : Split α) (settings : Settings α) :
    Except (Error α) (Logged α (Report α)) := do
  let (standardizer, train) ← Standardizer.fitTransform parts.train.features
  let test ← standardizer.transform parts.test.features
  let fitted ← (Estimator.ofSettings settings).fit train parts.train.labels
  return do
    let model ← fitted
    pure {
      model
      train := model.scores train parts.train.labels
      test := model.scores test parts.test.labels }

def Experiment.run [Eigensolver α] (e : Experiment α) :
    Except (Error α) (Logged α (Report α)) := do
  let dataset := Dataset.simulated e.samples e.features e.seed
  let parts ← dataset.shuffledSplit e.testSize e.splitSeed
  parts.evaluate e.settings

end RidgeLogistic
