import RidgeLogistic.Eigen
import RidgeLogistic.Loss

/-!
# The initial step

The first trial step of a search, derived from the data: the inverse of the largest
eigenvalue of the Gram matrix `XᵀX / N` plus the penalty. It exists unless both the
table and the penalty are zero.
-/

namespace RidgeLogistic

variable {α : Type} [Scalar α]

/-- The Gram matrix of a table: the inner products of its columns, divided by the
number of rows. -/
def Table.gram (x : Table α) : Square α x.width :=
  Vec.ofFn fun i => Vec.ofFn fun j =>
    total (List.zipWith (· * ·) (x.column i) (x.column j)) / (x.height : α)

def Table.largestEigenvalue [Eigensolver α] (x : Table α) : Except (Error α) α :=
  match largestFinite? (Eigensolver.eigenvalues x.gram) with
  | some largest => .ok largest
  | none => .error .noFiniteEigenvalue

/-- The initial step for a table that is announced to have `samples` rows and
`features` columns. -/
def initialStep [Eigensolver α] (x : Table α) (samples features : Nat) (penalty : α) :
    Except (Error α) α :=
  if x.height ≠ samples ∨ x.width ≠ features then
    .error (.dimension (.shape x.height x.width samples features))
  else if samples = 0 ∨ features = 0 then
    .error (.dimension .emptyTable)
  else do
    checkPenalty penalty
    let largest ← x.largestEigenvalue
    if 0 < largest + penalty then .ok (1 / (largest + penalty))
    else .error (.hyperparameter .noCurvature)

end RidgeLogistic
