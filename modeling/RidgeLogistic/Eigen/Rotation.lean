import RidgeLogistic.Eigen

/-!
# Eigenvalues by plane rotations

A symmetric matrix is made diagonal by rotations in the planes of two coordinates.
Each rotation clears one entry off the diagonal and keeps the eigenvalues; a sweep
does so for every pair of indices in turn. What is left off the diagonal shrinks
quadratically from sweep to sweep, so a fixed number of sweeps leaves nothing that
the diagonal could show.

The matrix is first divided by its greatest entry, and the eigenvalues multiplied by
it again at the end, so that squares of very large or very small entries do not leave
the range of the arithmetic.
-/

namespace RidgeLogistic.Rotation

variable {α : Type} [Scalar α] {d : Nat}

def magnitude (a : α) : α :=
  if a < 0 then -a else a

/-- The tangent of the rotation in the plane of `p` and `q` that clears the entry
between them, given the two diagonal entries and that entry. It is the smaller of
the two solutions. -/
def tangent (app aqq apq : α) : α :=
  let θ := (aqq - app) / (2.0 * apq)
  let t := 1 / (magnitude θ + Scalar.sqrt (θ * θ + 1))
  if θ < 0 then -t else t

def replace {β : Type} (p q : Fin d) (b c : β) (v : Vec β d) : Vec β d :=
  Vec.ofFn fun k => if k = p then b else if k = q then c else v.get k

/-- Rotates a matrix in the plane of `p` and `q`, columns first and then rows, so that
the entry between them vanishes. -/
def rotate (a : Square α d) (p q : Fin d) : Square α d :=
  let apq := (a.get p).get q
  if apq == 0 then a
  else
    let t := tangent ((a.get p).get p) ((a.get q).get q) apq
    let cosine := 1 / Scalar.sqrt (t * t + 1)
    let sine := t * cosine
    let turned := a.map fun row =>
      let u := row.get p
      let v := row.get q
      replace p q (u * cosine - v * sine) (u * sine + v * cosine) row
    let u := turned.get p
    let v := turned.get q
    replace p q (u * cosine - v * sine) (u * sine + v * cosine) turned

/-- Rotates in every plane once. -/
def sweep (a : Square α d) : Square α d :=
  (List.finRange d).foldl
    (fun a p => ((List.finRange d).filter (p < ·)).foldl (fun a q => rotate a p q) a) a

def sweeps : Nat := 24

/-- The eigenvalues of a symmetric matrix of ordinary numbers, and nothing for any
other one. -/
def eigenvalues (a : Square α d) : List α :=
  let entries := a.toList.flatMap Vec.toList
  let scale := entries.foldl (fun m v => if m < magnitude v then magnitude v else m) 0
  if !entries.all Scalar.isFinite then []
  else if scale == 0 then List.replicate d 0
  else
    let scaled := a.map fun row => row.map (· / scale)
    let final := (List.range sweeps).foldl (fun a _ => sweep a) scaled
    (List.finRange d).map fun i => (final.get i).get i * scale

end RidgeLogistic.Rotation

namespace RidgeLogistic

/-- The method that the program finds eigenvalues by. -/
instance : Eigensolver Float where
  eigenvalues := Rotation.eigenvalues

end RidgeLogistic
