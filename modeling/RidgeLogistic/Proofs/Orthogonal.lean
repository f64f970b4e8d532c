import RidgeLogistic.Proofs.Convexity
import RidgeLogistic.Proofs.Fitted
import RidgeLogistic.Proofs.SufficientDecrease
import RidgeLogistic.Proofs.Transfer

/-!
# Turning the coordinates

A table whose features are turned by an orthogonal matrix poses the same problem in other
coordinates. The scores of the samples are inner products, and so are the penalty and the
slope that a search looks at; an orthogonal matrix keeps all of them, if the coefficients are
turned along with the rows. The gradient is a sum of multiples of rows and of the
coefficients, so it turns too (`Problem.transfers_turn`). With that the run on turned data
from turned points is the run on the data, every point of it turned
(`Solver.runs_turned`).

A signed reordering of the features is the turn by a matrix of zeros and signs
(`Vec.get_turn_signedOrder`).
-/

namespace RidgeLogistic

open Matrix

variable {d : Nat} {σ : Type}

/-! ## Vectors -/

namespace Vec

/-- The row `v Q`, which as a column is `Qᵀ v`. -/
noncomputable def turn (Q : Matrix (Fin d) (Fin d) ℝ) (v : Vec ℝ d) : Vec ℝ d :=
  ofFn (v.get ᵥ* Q)

section

variable (Q : Matrix (Fin d) (Fin d) ℝ) (u v : Vec ℝ d)

theorem get_turn (j : Fin d) : (turn Q v).get j = (v.get ᵥ* Q) j :=
  get_ofFn _ j

theorem get_turn_eq_mulVec (j : Fin d) : (turn Q v).get j = (Qᵀ *ᵥ v.get) j := by
  rw [get_turn, mulVec_transpose]

theorem turn_add : turn Q (u + v) = turn Q u + turn Q v := by
  refine ext_get fun j => ?_
  have hget : (u + v).get = u.get + v.get := funext (get_add u v)
  rw [get_add, get_turn, get_turn, get_turn, hget, add_vecMul]
  rfl

theorem turn_mul (a : ℝ) : turn Q (v * a) = turn Q v * a := by
  refine ext_get fun j => ?_
  have hget : (v * a).get = a • v.get := by
    funext i
    rw [get_mul, Pi.smul_apply, smul_eq_mul, mul_comm]
  rw [get_mul, get_turn, get_turn, hget, smul_vecMul, Pi.smul_apply, smul_eq_mul, mul_comm]

theorem turn_zero : turn Q 0 = 0 := by
  have hget : (0 : Vec ℝ d).get = 0 := funext get_zero
  refine ext_get fun j => ?_
  rw [get_turn, hget, zero_vecMul]

theorem turn_sub : turn Q (u - v) = turn Q u - turn Q v := by
  have hneg : ∀ u v : Vec ℝ d, u - v = u + v * (-1 : ℝ) := by
    intro u v
    exact ext_get fun i => by simp; ring
  rw [hneg, hneg, turn_add, turn_mul]

end

variable {Q : Matrix (Fin d) (Fin d) ℝ}

theorem turn_dot_turn (hQ : Q ∈ orthogonalGroup (Fin d) ℝ) (u v : Vec ℝ d) :
    (turn Q u).dot (turn Q v) = u.dot v := by
  have hdot : ∀ u v : Vec ℝ d, u.dot v = u.get ⬝ᵥ v.get := fun u v => dot_eq_sum u v
  have hrow : (turn Q u).get = u.get ᵥ* Q := funext (get_turn Q u)
  have hcolumn : (turn Q v).get = Qᵀ *ᵥ v.get := funext (get_turn_eq_mulVec Q v)
  have hunit : Q * Qᵀ = 1 := (mem_orthogonalGroup_iff (Fin d) ℝ).1 hQ
  rw [hdot, hdot, hrow, hcolumn, ← dotProduct_mulVec, mulVec_mulVec, hunit, one_mulVec]

end Vec

/-! ## Problems -/

namespace Problem

section

variable {α : Type} {e : Nat}

/-- The problem with other features for each sample, made from those that it has. -/
def mapFeatures (f : Vec α d → Vec α e) (p : Problem α d) : Problem α e where
  samples := p.samples.map fun s => ⟨f s.features, s.label⟩
  samples_ne_nil := List.map_eq_nil_iff.not.2 p.samples_ne_nil

theorem samples_mapFeatures (f : Vec α d → Vec α e) (p : Problem α d) :
    (p.mapFeatures f).samples = p.samples.map fun s => ⟨f s.features, s.label⟩ := rfl

theorem size_mapFeatures (f : Vec α d → Vec α e) (p : Problem α d) :
    (p.mapFeatures f).size = p.size :=
  List.length_map _

theorem ofData_mapFeatures [Scalar α] {rows : List (Vec α d)} {y : List α} {p : Problem α d}
    (hp : Problem.ofData ⟨d, rows⟩ y = .ok p) (f : Vec α d → Vec α e) :
    Problem.ofData ⟨e, rows.map f⟩ y = .ok (p.mapFeatures f) := by
  obtain ⟨labels, hlabels, hlength, hsamples⟩ := samples_of_ofData hp
  refine ofData_of_samples hlabels ((List.length_map f).trans hlength) ?_
  rw [samples_mapFeatures, hsamples, List.map_zipWith, List.zipWith_map_left]

end

variable {Q : Matrix (Fin d) (Fin d) ℝ} (hQ : Q ∈ orthogonalGroup (Fin d) ℝ) (p : Problem ℝ d)

include hQ

theorem margin_turn (s : Sample ℝ d) (β : Vec ℝ d) :
    Sample.margin ⟨s.features.turn Q, s.label⟩ (β.turn Q) = s.margin β := by
  rw [Sample.margin_eq, Sample.margin_eq, Vec.turn_dot_turn hQ]

theorem pull_turn (β : Vec ℝ d) :
    (p.mapFeatures (Vec.turn Q)).pull (β.turn Q) = (p.pull β).turn Q := by
  rw [pull, samples_mapFeatures, List.foldl_map]
  simp only [margin_turn hQ, ← Vec.turn_mul]
  rw [← Vec.turn_zero Q]
  exact List.foldl_hom (Vec.turn Q) (fun sum s => (Vec.turn_add Q sum _).symm)

/-- Turning the features of all samples is turning the coefficients. -/
theorem transfers_turn : p.Transfers (Vec.turn Q) (p.mapFeatures (Vec.turn Q)) where
  add := Vec.turn_add Q
  sub := Vec.turn_sub Q
  mul := Vec.turn_mul Q
  dot_self v := Vec.turn_dot_turn hQ v v
  objective penalty β := by
    rw [objective_eq_sum, objective_eq_sum, Vec.turn_dot_turn hQ, size_mapFeatures,
      samples_mapFeatures, List.map_map]
    simp only [Function.comp_def, margin_turn hQ]
  gradient penalty β := by
    rw [gradient_eq_add, gradient_eq_add, pull_turn hQ, size_mapFeatures, Vec.turn_add,
      Vec.turn_mul, Vec.turn_mul]

theorem misclassification_turn (β : Vec ℝ d) :
    (p.mapFeatures (Vec.turn Q)).misclassification (β.turn Q) = p.misclassification β := by
  rw [misclassification, misclassification, size_mapFeatures, samples_mapFeatures,
    List.countP_map]
  simp only [Function.comp_def, Sample.misclassified, Vec.turn_dot_turn hQ]

end Problem

/-! ## Runs -/

/-- A solver that is run on turned rows from turned points goes through the points of its run
on the rows, all of them turned. An observer that is told of the turned points learns the same
from both, the stalls and the steps of all iterations and their records in the log; and at any
point, those of the run among them, the search ends in the same way after the same trials. So
any trajectory has the same metrics as the turned one. -/
theorem Solver.runs_turned (solver : Solver ℝ) {Q : Matrix (Fin d) (Fin d) ℝ}
    (hQ : Q ∈ orthogonalGroup (Fin d) ℝ) {rows : List (Vec ℝ d)} {y : List ℝ}
    {p : Problem ℝ d} (hp : Problem.ofData ⟨d, rows⟩ y = .ok p) :
    let x : Table ℝ := ⟨d, rows⟩
    let x' : Table ℝ := ⟨d, rows.map (Vec.turn Q)⟩
    (∀ (σ : Type) (observer : Observer ℝ d σ) (state : σ) (β θ : Vec ℝ d),
      (∃ path seen log,
        solver.descendWith x y β.toList (observer.comap (Vec.turn Q)) state =
          .ok ⟨(path, seen), log⟩ ∧
        solver.descendWith x' y (β.turn Q).toList observer state =
          .ok ⟨(path.map (Vec.turn Q), seen), log⟩) ∧
      ∃ paths seen log,
        solver.accelerateWith x y β.toList θ.toList (observer.comap (Vec.turn Q)) state =
          .ok ⟨(paths, seen), log⟩ ∧
        solver.accelerateWith x' y (β.turn Q).toList (θ.turn Q).toList observer state =
          .ok ⟨(paths.map (Vec.turn Q), seen), log⟩) ∧
    (∀ point : Vec ℝ d, ∃ found,
      lineSearch x y point.toList solver.params.penalty solver.params.step
        solver.params.search = .ok found ∧
      lineSearch x' y (point.turn Q).toList solver.params.penalty solver.params.step
        solver.params.search = .ok found) ∧
    ∀ path : Trajectory ℝ d,
      (∀ penalty, 0 ≤ penalty → ∃ values, path.objectives x y penalty = .ok values ∧
        (path.map (Vec.turn Q)).objectives x' y penalty = .ok values) ∧
      ∃ rates, path.misclassifications x y = .ok rates ∧
        (path.map (Vec.turn Q)).misclassifications x' y = .ok rates := by
  intro x x'
  have hp' : Problem.ofData x' y = .ok (p.mapFeatures (Vec.turn Q)) :=
    Problem.ofData_mapFeatures hp _
  have htransfers := p.transfers_turn hQ
  refine ⟨fun σ observer state β θ => ⟨?_, ?_⟩, fun point => ?_, fun path => ⟨?_, ?_⟩⟩
  · exact descendWith_transfer hp hp' htransfers solver observer state β
  · exact accelerateWith_transfer hp hp' htransfers solver observer state β θ
  · exact ⟨_, lineSearch_eq hp solver point,
      (lineSearch_transfer hp hp' htransfers solver point).trans (lineSearch_eq hp solver point)⟩
  · intro penalty hpen
    have hok := checkPenalty_eq_ok_iff.2 hpen
    exact ⟨_, objectives_eq hp hok path,
      (objectives_transfer hp hp' htransfers hok path).trans (objectives_eq hp hok path)⟩
  · refine ⟨_, misclassifications_eq hp path, (misclassifications_eq hp' _).trans ?_⟩
    rw [Trajectory.points_map, List.map_map]
    exact congrArg Except.ok (List.map_congr_left fun β _ => p.misclassification_turn hQ β)

/-! ## Signed reorderings -/

/-- The matrix that puts at each place the feature that an order names for it, with a sign. -/
def signedOrder (order : Equiv.Perm (Fin d)) (sign : Fin d → ℤˣ) :
    Matrix (Fin d) (Fin d) ℝ :=
  of fun i j => if i = order j then ((sign j : ℤ) : ℝ) else 0

theorem Vec.get_turn_signedOrder (order : Equiv.Perm (Fin d)) (sign : Fin d → ℤˣ)
    (v : Vec ℝ d) (j : Fin d) :
    (v.turn (signedOrder order sign)).get j = v.get (order j) * (sign j : ℤ) := by
  rw [get_turn, vecMul, dotProduct]
  simp [signedOrder]

theorem signedOrder_mem_orthogonalGroup (order : Equiv.Perm (Fin d)) (sign : Fin d → ℤˣ) :
    signedOrder order sign ∈ orthogonalGroup (Fin d) ℝ := by
  refine (mem_orthogonalGroup_iff' (Fin d) ℝ).2 (ext fun i k => ?_)
  have hentry : ((signedOrder order sign)ᵀ * signedOrder order sign) i k =
      if k = i then ((sign i : ℤ) : ℝ) * ((sign k : ℤ) : ℝ) else 0 := by
    rw [mul_apply]
    simp [signedOrder]
  rw [hentry, one_apply]
  by_cases h : k = i
  · subst h
    rw [if_pos rfl, if_pos rfl, ← Int.cast_mul, ← Units.val_mul, Int.units_mul_self,
      Units.val_one, Int.cast_one]
  · rw [if_neg h, if_neg (Ne.symm h)]

/-- Two features that trade places, one of them with its sign turned. -/
theorem Solver.runs_turned_swapped :
    let Q : Matrix (Fin 2) (Fin 2) ℝ := signedOrder (Equiv.swap 0 1) ![1, -1]
    let rows : List (Vec ℝ 2) := [⟨[1, 2], rfl⟩, ⟨[3, -1], rfl⟩]
    let rows' : List (Vec ℝ 2) := [⟨[2, -1], rfl⟩, ⟨[-1, -3], rfl⟩]
    Q ∈ orthogonalGroup (Fin 2) ℝ ∧
    (∃ p, Problem.ofData ⟨2, rows⟩ [1, -1] = .ok p) ∧
    ∃ paths paths' log,
      Solver.tenth.accelerateWith ⟨2, rows⟩ [1, -1] [5, 7] [4, 0] .silent () =
        .ok ⟨(paths, ()), log⟩ ∧
      Solver.tenth.accelerateWith ⟨2, rows'⟩ [1, -1] [7, -5] [0, -4] .silent () =
        .ok ⟨(paths', ()), log⟩ ∧
      paths' = paths.map (Vec.turn Q) := by
  intro Q rows rows'
  have hQ : Q ∈ orthogonalGroup (Fin 2) ℝ := signedOrder_mem_orthogonalGroup _ _
  obtain ⟨p, hp⟩ : ∃ p, Problem.ofData ⟨2, rows⟩ [1, -1] = .ok p :=
    Problem.exists_ofData_iff.2 ⟨rfl, by decide,
      _, Label.readFrom_map_value 0 [.positive, .negative]⟩
  have hturn : ∀ a b : ℝ, Vec.turn Q ⟨[a, b], rfl⟩ = ⟨[b, -a], rfl⟩ := by
    intro a b
    refine Vec.ext_get fun j => ?_
    rw [Vec.get_turn_signedOrder]
    fin_cases j <;> simp [Vec.get]
  obtain ⟨hruns, -⟩ := runs_turned Solver.tenth hQ hp
  obtain ⟨-, paths, ⟨⟩, log, hrun, hturned⟩ :=
    hruns Unit .silent () ⟨[5, 7], rfl⟩ ⟨[4, 0], rfl⟩
  have hrows : rows.map (Vec.turn Q) = rows' := by
    simp [rows, rows', hturn]
  rw [hrows, hturn, hturn] at hturned
  refine ⟨hQ, ⟨p, hp⟩, paths, _, log, hrun, hturned, rfl⟩

end RidgeLogistic
