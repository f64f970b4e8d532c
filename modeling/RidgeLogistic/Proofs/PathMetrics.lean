import RidgeLogistic.Proofs.Evaluation
import RidgeLogistic.Proofs.SufficientDecrease
import RidgeLogistic.Proofs.Transcript

/-!
# Metrics along the trajectories of solvers

A metric along a trajectory evaluates one point after the other and gives up at the first that is
refused. On a trajectory that a solver gives it cannot be another point than the first. An
evaluation judges the data, of a vector its length, and the penalty, in this order
(`refusal?_objective`, `refusal?_misclassification`), and all points are as long as the one that
the solver was started from. So all of them are refused, for one and the same reason, or none is
(`Solver.metrics_all_or_nothing`). No law of the arithmetic is used.

What a call is refused for is an option, `none` where it succeeds. Of calls one after the other it
is the first refusal that there is (`refusal?_bind_eq_or`), and a list of calls that are refused
alike is refused like the first of them (`refusal?_mapM`).
-/

namespace RidgeLogistic

variable {α : Type} [Scalar α]

/-! ## What evaluations are refused for -/

section

variable (x : Table α) (y v : List α)

omit [Scalar α] in
theorem Table.refusal?_point (operand : Operand) :
    refusal? (x.point operand v) =
      if x.width = v.length then none
      else some (.dimension (.width x.width operand v.length)) := by
  split
  · next hwidth => exact congrArg refusal? (Table.point_toList ⟨v, hwidth.symm⟩)
  · next hwidth =>
      rw [Table.point_of_width_ne hwidth]
      rfl

theorem refusal?_objective (penalty : α) :
    refusal? (objective x y v penalty) =
      (refusal? (Problem.ofData x y)).or
        ((refusal? (x.point .beta v)).or (refusal? (checkPenalty penalty))) := by
  refine refusal?_bind_eq_or fun p _ => refusal?_bind_eq_or fun w _ => ?_
  exact refusal?_bind_of_ok fun _ _ => rfl

theorem refusal?_misclassification :
    refusal? (misclassification x y v) =
      (refusal? (Problem.ofData x y)).or (refusal? (x.point .beta v)) := by
  refine refusal?_bind_eq_or fun p _ => ?_
  exact refusal?_bind_of_ok fun _ _ => rfl

end

/-! ## Along a trajectory -/

namespace Trajectory

variable {d : Nat}

omit [Scalar α]

/-- How an answer for a whole trajectory comes from the metric of a point. Where the metric is
refused at the start, the answer is that refusal, and it is no other one. Where it is not, the
answer has one value for each point, at the index of the point. -/
structure AllOrNothing (path : Trajectory α d) (start : List α)
    (metric : List α → Except (Error α) α) (answer : Except (Error α) (List α)) : Prop where
  error_iff : ∀ fault, answer = .error fault ↔ metric start = .error fault
  exists_values : ∀ {first}, metric start = .ok first → ∃ values,
    answer = .ok values ∧ values.length = path.length ∧
    ∀ k point, path.get? k = some point →
      ∃ value, values[k]? = some value ∧ metric point.toList = .ok value

/-- A metric that judges of a vector its length alone. -/
theorem allOrNothing (path : Trajectory α d) {metric : List α → Except (Error α) α}
    (hmetric : ∀ {v w}, v.length = w.length → refusal? (metric v) = refusal? (metric w)) :
    path.AllOrNothing path.start.toList metric
      (path.points.mapM fun point => metric point.toList) := by
  have hrefusal : refusal? (path.points.mapM fun point => metric point.toList) =
      refusal? (metric path.start.toList) := by
    refine refusal?_mapM fun point _ => hmetric ?_
    rw [point.length_toList, path.start.length_toList]
  refine ⟨fun fault => ?_, fun {first} hfirst => ?_⟩
  · rw [← refusal?_eq_some_iff, ← refusal?_eq_some_iff, hrefusal]
  · rw [hfirst] at hrefusal
    obtain ⟨values, hvalues⟩ := refusal?_eq_none_iff.1 hrefusal
    exact ⟨values, hvalues, length_of_mapM hvalues, fun k point hpoint =>
      exists_getElem?_of_mapM hvalues hpoint⟩

end Trajectory

/-! ## The trajectories of solvers -/

namespace Solver

variable {solver : Solver α} {x : Table α} {y β θ start : List α} {σ : Type}
variable {observer : Observer α x.width σ} {state : σ}

/-- The trajectories that a solver gives on some data, whoever watches, each with the vector that
it was asked to start from. -/
inductive Gives (solver : Solver α) (x : Table α) (y : List α) :
    List α → Trajectory α x.width → Prop where
  | plain {σ : Type} {observer : Observer α x.width σ} {state : σ} {β : List α}
      {run : Logged α (Trajectory α x.width × σ)}
      (h : solver.descendWith x y β observer state = .ok run) : Gives solver x y β run.value.1
  | estimates {σ : Type} {observer : Observer α x.width σ} {state : σ} {β θ : List α}
      {run : Logged α (Paths α x.width × σ)}
      (h : solver.accelerateWith x y β θ observer state = .ok run) :
      Gives solver x y β run.value.1.estimates
  | origins {σ : Type} {observer : Observer α x.width σ} {state : σ} {β θ : List α}
      {run : Logged α (Paths α x.width × σ)}
      (h : solver.accelerateWith x y β θ observer state = .ok run) :
      Gives solver x y θ run.value.1.origins

theorem exists_course_of_descendWith {run : Logged α (Trajectory α x.width × σ)}
    (h : solver.descendWith x y β observer state = .ok run) :
    ∃ c : Course α x.width,
      run.value.1 = (c.paths solver.params.iterations).estimates ∧ c.estimate₀.toList = β := by
  obtain ⟨p, hp, hstart⟩ := exists_of_bind_eq_ok h
  obtain ⟨estimate, hβ, -⟩ := exists_of_bind_eq_ok hstart
  obtain rfl := Table.toList_of_point hβ
  obtain ⟨log, hrun⟩ := descendWith_eq hp solver estimate observer state
  obtain rfl := Except.ok.inj (h.symm.trans hrun)
  exact ⟨solver.plainCourse p estimate, rfl, rfl⟩

theorem exists_course_of_accelerateWith {run : Logged α (Paths α x.width × σ)}
    (h : solver.accelerateWith x y β θ observer state = .ok run) :
    ∃ c : Course α x.width, run.value.1 = c.paths solver.params.iterations ∧
      c.estimate₀.toList = β ∧ c.origin₀.toList = θ := by
  obtain ⟨p, hp, hstart⟩ := exists_of_bind_eq_ok h
  obtain ⟨estimate, hβ, hfrom⟩ := exists_of_bind_eq_ok hstart
  obtain ⟨origin, hθ, -⟩ := exists_of_bind_eq_ok hfrom
  obtain rfl := Table.toList_of_point hβ
  obtain rfl := Table.toList_of_point hθ
  obtain ⟨log, hrun⟩ := accelerateWith_eq hp solver estimate origin observer state
  obtain rfl := Except.ok.inj (h.symm.trans hrun)
  exact ⟨solver.acceleratedCourse p estimate origin, rfl, rfl, rfl⟩

namespace Gives

/-- A run that writes to the log has the log for its observer. -/
theorem of_descend {run : Logged α (Trajectory α x.width)}
    (h : solver.descend x y β = .ok run) : solver.Gives x y β run.value := by
  obtain ⟨observed, hobserved, rfl⟩ := exists_of_map_eq_ok h
  exact plain hobserved

theorem of_accelerate {run : Logged α (Paths α x.width)}
    (h : solver.accelerate x y β θ = .ok run) :
    solver.Gives x y β run.value.estimates ∧ solver.Gives x y θ run.value.origins := by
  obtain ⟨observed, hobserved, rfl⟩ := exists_of_map_eq_ok h
  exact ⟨estimates hobserved, origins hobserved⟩

/-- A trajectory that a solver gives goes along a sequence of points, as far as the budget of the
solver reaches. -/
theorem exists_along {path : Trajectory α x.width} (h : solver.Gives x y start path) :
    ∃ f : Nat → Vec α x.width,
      path = .along f solver.params.iterations ∧ (f 0).toList = start := by
  cases h with
  | plain h =>
      obtain ⟨c, hpath, hβ⟩ := exists_course_of_descendWith h
      exact ⟨c.estimate, hpath, hβ⟩
  | estimates h =>
      obtain ⟨c, hpaths, hβ, -⟩ := exists_course_of_accelerateWith h
      exact ⟨c.estimate, congrArg Paths.estimates hpaths, hβ⟩
  | origins h =>
      obtain ⟨c, hpaths, -, hθ⟩ := exists_course_of_accelerateWith h
      exact ⟨c.origin, congrArg Paths.origins hpaths, hθ⟩

end Gives

/-- A trajectory that a solver gives starts where it was asked to. It has one point more than there
were iterations, all of one length, and its table has them for rows, in order. On any data, that of
the run or other, and with any penalty, its objectives are refused exactly if the objective is
refused at the start, for the same reason; otherwise there is the objective of each point, at the
index of the point. The same holds of its misclassifications. -/
theorem metrics_all_or_nothing {path : Trajectory α x.width} (h : solver.Gives x y start path) :
    (path.get? 0 = some path.start ∧ path.start.toList = start ∧
      path.length = solver.params.iterations + 1 ∧
      (∀ point ∈ path.points, point.toList.length = start.length) ∧
      path.toTable.height = path.length ∧ path.toTable.width = start.length ∧
      ∀ k : Nat, path.toTable.rows[k]? = path.get? k) ∧
    ∀ x' y',
      (∀ penalty, path.AllOrNothing start (fun point => objective x' y' point penalty)
        (path.objectives x' y' penalty)) ∧
      path.AllOrNothing start (misclassification x' y') (path.misclassifications x' y') := by
  obtain ⟨f, rfl, rfl⟩ := h.exists_along
  refine ⟨⟨rfl, rfl, Trajectory.length_along f _, ?_, rfl, (f 0).length_toList.symm,
    fun _ => rfl⟩, ?_⟩
  · intro point _
    rw [point.length_toList, (f 0).length_toList]
  · intro x' y'
    refine ⟨fun penalty => Trajectory.allOrNothing _ fun hlength => ?_,
      Trajectory.allOrNothing _ fun hlength => ?_⟩
    · rw [refusal?_objective, refusal?_objective, Table.refusal?_point, Table.refusal?_point,
        hlength]
    · rw [refusal?_misclassification, refusal?_misclassification, Table.refusal?_point,
        Table.refusal?_point, hlength]

/-- Two runs from different points, evaluated on data of one sample. Data of the width of the
runs has a value for each of their points, and data of another width has none. -/
theorem metrics_all_or_nothing_balanced :
    ∃ descent acceleration,
      tenth.descend Problem.balanced.table Problem.balanced.responses [5] = .ok descent ∧
      tenth.accelerate Problem.balanced.table Problem.balanced.responses [5] [2] =
        .ok acceleration ∧
      (∃ values, descent.value.objectives ⟨1, [Vec.replicate 1 3]⟩ [-1] 0 = .ok values ∧
        values.length = 6) ∧
      acceleration.value.origins.misclassifications ⟨2, [0]⟩ [1] =
        .error (.dimension (.width 2 .beta 1)) := by
  let narrow : Problem ℝ 1 := ⟨[⟨Vec.replicate 1 3, .negative⟩], List.cons_ne_nil _ _⟩
  let wide : Problem ℝ 2 := ⟨[⟨0, .positive⟩], List.cons_ne_nil _ _⟩
  have hdescent := descend_eq Problem.balanced.ofData_table tenth (Vec.replicate 1 5)
  have hacceleration := accelerate_eq Problem.balanced.ofData_table tenth (Vec.replicate 1 5)
    (Vec.replicate 1 2)
  refine ⟨_, _, hdescent, hacceleration, ?_, ?_⟩
  · have hfirst := objective_eq narrow.ofData_table (checkPenalty_eq_ok_iff.2 (le_refl (0 : ℝ)))
      (Vec.replicate 1 5)
    obtain ⟨⟨-, -, hlength, -⟩, hmetrics⟩ := metrics_all_or_nothing (.of_descend hdescent)
    obtain ⟨values, hvalues, hcount, -⟩ := ((hmetrics _ _).1 0).exists_values hfirst
    exact ⟨values, hvalues, hcount.trans hlength⟩
  · have hfirst := misclassification_of_width_ne wide.ofData_table
      (show 2 ≠ [(2 : ℝ)].length by decide)
    obtain ⟨-, hmetrics⟩ := metrics_all_or_nothing (Gives.of_accelerate hacceleration).2
    exact ((hmetrics _ _).2.error_iff _).2 hfirst

end Solver

end RidgeLogistic
