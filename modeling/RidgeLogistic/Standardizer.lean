import RidgeLogistic.Error
import RidgeLogistic.Table

/-!
# Standardising columns

A standardizer holds the mean and the deviation of each column of the table it was
last fitted on, and takes the one off and divides by the other in any table of that
width. The deviation is the population one, by a one-pass update of the moments, which
gives exactly zero for a constant column; a deviation that is not positive is replaced
by one, so that such a column is only centred.
-/

namespace RidgeLogistic

variable {α : Type} [Scalar α]

/-- The arithmetic mean, from the sum in order. -/
def mean (xs : List α) : α :=
  total xs / (xs.length : α)

/-- The running moments of a list: how many entries there were, their mean, and the
sum of their squared distances to it. -/
structure Moments (α : Type) where
  count : Nat
  mean : α
  squares : α
  deriving DecidableEq, Repr

namespace Moments

def empty : Moments α where
  count := 0
  mean := 0
  squares := 0

/-- One more entry. The distances to the mean before and after it are multiplied. -/
def push (m : Moments α) (v : α) : Moments α :=
  let count := m.count + 1
  let delta := v - m.mean
  let mean := m.mean + delta / (count : α)
  { count, mean, squares := m.squares + (v - mean) * delta }

end Moments

def deviation (xs : List α) : α :=
  Scalar.sqrt ((xs.foldl Moments.push .empty).squares / (xs.length : α))

/-- A deviation as a divisor. -/
def divisor (deviation : α) : α :=
  if 0 < deviation then deviation else 1

/-- What is kept of a table: the mean and the divisor of each column. -/
structure ColumnStatistics (α : Type) where
  width : Nat
  mean : Vec α width
  divisor : Vec α width

namespace ColumnStatistics

/-- The statistics of a table, which has to have a row. -/
def ofTable (x : Table α) : Except (Error α) (ColumnStatistics α) :=
  if x.height = 0 then .error (.dimension .noRows)
  else
    .ok
      { width := x.width
        mean := Vec.ofFn fun j => RidgeLogistic.mean (x.column j)
        divisor := Vec.ofFn fun j => RidgeLogistic.divisor (deviation (x.column j)) }

/-- Centres and scales a table of the same width. -/
def apply (s : ColumnStatistics α) (x : Table α) : Except (Error α) (Table α) :=
  if same : x.width = s.width then
    .ok
      { width := s.width
        rows := x.rows.map fun row =>
          Vec.zipWith (· / ·) (row.cast same - s.mean) s.divisor }
  else .error (.dimension (.statistics s.width x.width))

theorem apply_rows (s : ColumnStatistics α) (rows : List (Vec α s.width)) :
    s.apply ⟨s.width, rows⟩ = .ok
      { width := s.width
        rows := rows.map fun row => Vec.zipWith (· / ·) (row - s.mean) s.divisor } :=
  dif_pos rfl

end ColumnStatistics

/-- Column statistics that are there once a fit has succeeded. -/
structure Standardizer (α : Type) where
  statistics : Option (ColumnStatistics α)

namespace Standardizer

def unfitted : Standardizer α where
  statistics := none

/-- The standardizer fitted on a table; nothing of an earlier fit remains. -/
def fit (x : Table α) : Except (Error α) (Standardizer α) := do
  return { statistics := some (← ColumnStatistics.ofTable x) }

def transform (s : Standardizer α) (x : Table α) : Except (Error α) (Table α) :=
  match s.statistics with
  | none => .error .notFitted
  | some statistics => statistics.apply x

def fitTransform (x : Table α) :
    Except (Error α) (Standardizer α × Table α) := do
  let fitted ← fit x
  return (fitted, ← fitted.transform x)

end Standardizer

end RidgeLogistic
