import RidgeLogistic.Vec

/-!
# Eigenvalues

What the library asks of an eigensolver is the eigenvalues of a symmetric matrix, in
any order. A solver may return values that are no ordinary numbers, or none at all,
where the matrix holds such; `largestFinite?` looks past them.
-/

namespace RidgeLogistic

/-- A square matrix as its rows. -/
abbrev Square (α : Type) (d : Nat) := Vec (Vec α d) d

class Eigensolver (α : Type) where
  eigenvalues : {d : Nat} → Square α d → List α

/-- The greatest of the values that are finite, if there is one. -/
def largestFinite? {α : Type} [Scalar α] (values : List α) : Option α :=
  values.foldl
    (fun best v =>
      if Scalar.isFinite v then
        match best with
        | none => some v
        | some b => some (if b < v then v else b)
      else best)
    none

theorem largestFinite?_concat {α : Type} [Scalar α] (values : List α) {v : α}
    (hv : Scalar.isFinite v = true) :
    largestFinite? (values ++ [v]) =
      some ((largestFinite? values).elim v fun b => if b < v then v else b) := by
  rw [largestFinite?, List.foldl_append, List.foldl_cons, List.foldl_nil, if_pos hv,
    ← largestFinite?]
  cases largestFinite? values with
  | none => rfl
  | some b => rfl

end RidgeLogistic
