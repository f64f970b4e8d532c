import RidgeLogistic.Table

/-!
# Trajectories

The points that a run visited, from the one it started at. A trajectory is never
empty, and the point at index `k` is the one after `k` iterations.
-/

namespace RidgeLogistic

/-- A starting point and the points that followed it. -/
structure Trajectory (α : Type) (d : Nat) where
  start : Vec α d
  later : List (Vec α d)

namespace Trajectory

variable {α : Type} {d : Nat}

def points (path : Trajectory α d) : List (Vec α d) :=
  path.start :: path.later

/-- The number of points, one more than that of the iterations. -/
def length (path : Trajectory α d) : Nat :=
  path.later.length + 1

/-- The point after `k` iterations, if there were as many. -/
def get? (path : Trajectory α d) (k : Nat) : Option (Vec α d) :=
  path.points[k]?

/-- The point that the run ended at. -/
def last (path : Trajectory α d) : Vec α d :=
  path.later.getLastD path.start

def toTable (path : Trajectory α d) : Table α :=
  { width := d, rows := path.points }

@[simp] theorem length_points (path : Trajectory α d) :
    path.points.length = path.length := rfl

theorem getLast?_points (path : Trajectory α d) : path.points.getLast? = some path.last := by
  rw [points, List.getLast?_cons, last, List.getLastD_eq_getLast?]

theorem getLast?_map_points {β : Type} (path : Trajectory α d) (f : Vec α d → β) :
    (path.points.map f).getLast? = some (f path.last) := by
  rw [List.getLast?_map, path.getLast?_points]
  rfl

end Trajectory

end RidgeLogistic
