import RidgeLogistic.Label
import RidgeLogistic.Random.Normal
import RidgeLogistic.Random.Shuffle
import RidgeLogistic.Table

/-!
# Datasets

Features with labels, one label for each row. A dataset is read from data, from
data with labels in the other encoding, or drawn from a seed; and it is split into a
part to fit on and a part to test on, in the order of its rows or after a shuffle.

A split that shuffles is the plain one on the rows in the order of the shuffle, and
that order depends on the number of rows and the seed alone.
-/

namespace RidgeLogistic

structure Dataset (α : Type) where
  features : Table α
  labels : List α

structure Split (α : Type) where
  train : Dataset α
  test : Dataset α

variable {α : Type}

namespace Dataset

def size (ds : Dataset α) : Nat :=
  ds.features.height

/-- The rows at the given places with their labels, in the given order. -/
def select (places : List Nat) (ds : Dataset α) : Dataset α where
  features := ds.features.select places
  labels := places.filterMap (ds.labels[·]?)

variable [Scalar α]

/-- The dataset of a table and labels `-1` and `+1`. The numbers of both are compared
before the labels are read. -/
def ofData (features : Table α) (labels : List α) : Except (Error α) (Dataset α) :=
  if features.height ≠ labels.length then
    .error (.dimension (.labels features.height labels.length))
  else do
    let _ ← Label.readSigns labels
    return { features, labels }

/-- The dataset of a table and labels `0` and `1`. The labels are read before the
numbers of both are compared. -/
def ofBits (features : Table α) (labels : List α) : Except (Error α) (Dataset α) := do
  let labels ← Label.readBits labels
  ofData features (labels.map Label.value)

def drawLabel : Random.Draw Label := do
  return if (← Random.Draw.longWord) < 0x8000000000000000 then .positive else .negative

def drawVec (z : Random.Ziggurat α) : (d : Nat) → Random.Draw (Vec α d)
  | 0 => return .nil
  | d + 1 => do
    let a ← z.draw
    let rest ← drawVec z d
    return rest.cons a

/-- Two normal classes of about the same size, apart by the same distance along every
feature. All labels are drawn before all noise. -/
def simulated (samples width : Nat) (seed : UInt64) : Dataset α :=
  let draws : Random.Draw (List Label × List (Vec α width)) := do
    let labels ← Random.Draw.list drawLabel samples
    let noise ← Random.Draw.list (drawVec .layers width) samples
    return (labels, noise)
  let (labels, noise) := (draws.run (.ofSeed seed)).1
  let shift : α := 1 / Scalar.sqrt ((max width 1 : Nat) : α)
  { features :=
      { width
        rows := List.zipWith (fun (label : Label) row =>
          row.map (· + label.value * shift)) labels noise }
    labels := labels.map Label.value }

def testCount (ds : Dataset α) (testSize : α) : Except (Error α) Nat :=
  if 0 < testSize ∧ testSize < 1 then
    .ok (Scalar.roundNat ((ds.size : α) * testSize))
  else
    .error (.hyperparameter (.testSize testSize))

/-- Splits off the last rows for testing. -/
def split (ds : Dataset α) (testSize : α) : Except (Error α) (Split α) := do
  let trainCount := ds.size - (← ds.testCount testSize)
  return {
    train := {
      features := ds.features.take trainCount
      labels := ds.labels.take trainCount }
    test := {
      features := ds.features.drop trainCount
      labels := ds.labels.drop trainCount } }

def shuffledSplit (ds : Dataset α) (testSize : α) (seed : UInt64) :
    Except (Error α) (Split α) := do
  let trainCount := ds.size - (← ds.testCount testSize)
  let order := Random.shuffled ds.size seed
  return {
    train := ds.select (order.take trainCount)
    test := ds.select (order.drop trainCount) }

end Dataset

end RidgeLogistic
