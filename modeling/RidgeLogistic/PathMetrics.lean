import RidgeLogistic.Decision
import RidgeLogistic.Loss
import RidgeLogistic.Trajectory

/-!
# Metrics along a trajectory

The objective and the misclassification at every point of a trajectory, on any data,
which need not be what the run was made on. The first point that an evaluation
refuses decides the whole answer.
-/

namespace RidgeLogistic

namespace Trajectory

variable {α : Type} [Scalar α] {d : Nat}

def objectives (path : Trajectory α d) (x : Table α) (y : List α) (penalty : α) :
    Except (Error α) (List α) :=
  path.points.mapM fun point => objective x y point.toList penalty

def misclassifications (path : Trajectory α d) (x : Table α) (y : List α) :
    Except (Error α) (List α) :=
  path.points.mapM fun point => misclassification x y point.toList

end Trajectory

end RidgeLogistic
