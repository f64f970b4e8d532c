import RidgeLogistic.PathMetrics
import RidgeLogistic.Proofs.Run

/-!
# Calls on data that pass the checks

Every call from outside judges its data first and then computes on a `Problem`. Once
the data is known to pose a problem, and a vector to fit it, the call is the
computation: this file says so for each of them, one equation a call. What a solver
accepted as its parameters is all that a search asks of them.
-/

namespace RidgeLogistic

variable {α : Type} [Scalar α] {σ : Type}

/-! ## What accepted parameters satisfy -/

namespace Solver

variable (solver : Solver α)

theorem checkPenalty_params : checkPenalty solver.params.penalty = .ok () := by
  obtain ⟨_, hpen, _⟩ := exists_of_bind_eq_ok solver.accepted
  exact hpen

theorem checkStep_params : checkStep solver.params.step = .ok () := by
  obtain ⟨_, _, h⟩ := exists_of_bind_eq_ok solver.accepted
  obtain ⟨_, hstep, _⟩ := exists_of_bind_eq_ok h
  exact hstep

theorem check_search : solver.params.search.check = .ok () := by
  obtain ⟨_, _, h⟩ := exists_of_bind_eq_ok solver.accepted
  obtain ⟨_, _, hsearch⟩ := exists_of_bind_eq_ok h
  exact hsearch

end Solver

/-! ## The calls -/

section

variable {x : Table α} {y : List α} {p : Problem α x.width}
variable (hp : Problem.ofData x y = .ok p)

include hp

theorem objective_eq {penalty : α} (hpen : checkPenalty penalty = .ok ())
    (β : Vec α x.width) : objective x y β.toList penalty = .ok (p.objective penalty β) := by
  rw [objective, hp, Table.point_toList, hpen]
  rfl

theorem gradient_eq {penalty : α} (hpen : checkPenalty penalty = .ok ())
    (β : Vec α x.width) : gradient x y β.toList penalty = .ok (p.gradient penalty β) := by
  rw [gradient, hp, Table.point_toList, hpen]
  rfl

/-- The evaluations along a trajectory all pass, and are collected in order. -/
theorem objectives_eq {penalty : α} (hpen : checkPenalty penalty = .ok ())
    (path : Trajectory α x.width) :
    path.objectives x y penalty = .ok (path.points.map (p.objective penalty)) :=
  mapM_eq_ok_map (fun point => objective_eq hp hpen point) path.points

theorem lineSearch_of_checks {penalty step : α} {search : Backtracking α}
    (hpen : checkPenalty penalty = .ok ()) (hstep : checkStep step = .ok ())
    (hsearch : search.check = .ok ()) (β : Vec α x.width) :
    lineSearch x y β.toList penalty step search =
      .ok (p.backtrack search penalty β (p.gradient penalty β) step) := by
  rw [lineSearch, hp, Table.point_toList, hpen, hstep, hsearch]
  rfl

/-- The search with the parameters of a solver, from any point. -/
theorem lineSearch_eq (solver : Solver α) (β : Vec α x.width) :
    lineSearch x y β.toList solver.params.penalty solver.params.step
        solver.params.search =
      .ok (p.backtrack solver.params.search solver.params.penalty β
        (p.gradient solver.params.penalty β) solver.params.step) :=
  lineSearch_of_checks hp solver.checkPenalty_params solver.checkStep_params
    solver.check_search β

end

/-! ## The courses of the solvers -/

def Solver.plainCourse {d : Nat} (solver : Solver α) (p : Problem α d)
    (β : Vec α d) : Course α d where
  problem := p
  scheme := .plain
  params := solver.params
  estimate₀ := β
  origin₀ := β

def Solver.acceleratedCourse {d : Nat} (solver : Solver α) (p : Problem α d)
    (β θ : Vec α d) : Course α d where
  problem := p
  scheme := .accelerated
  params := solver.params
  estimate₀ := β
  origin₀ := θ

section

variable {x : Table α} {y : List α} {p : Problem α x.width}
variable (hp : Problem.ofData x y = .ok p)

include hp

theorem descendWith_eq_run (solver : Solver α) (β : Vec α x.width)
    (observer : Observer α x.width σ) (state : σ) :
    solver.descendWith x y β.toList observer state =
      .ok ((fun (paths, state) => (paths.estimates, state)) <$>
        p.run .plain solver.params observer β β state) := by
  rw [Solver.descendWith, hp, Table.point_toList]
  rfl

theorem accelerateWith_eq_run (solver : Solver α) (β θ : Vec α x.width)
    (observer : Observer α x.width σ) (state : σ) :
    solver.accelerateWith x y β.toList θ.toList observer state =
      .ok (p.run .accelerated solver.params observer β θ state) := by
  rw [Solver.accelerateWith, hp, Table.point_toList, Table.point_toList]
  rfl

/-- Plain descent gives the estimates of its course and tells its observer the events
of the course. -/
theorem descendWith_eq (solver : Solver α) (β : Vec α x.width)
    (observer : Observer α x.width σ) (state : σ) :
    let c := solver.plainCourse p β
    let n := solver.params.iterations
    ∃ log, solver.descendWith x y β.toList observer state =
      .ok ⟨((c.paths n).estimates, (observer.notifyAll (c.events n) state).value), log⟩ := by
  intro c n
  have hrun := Problem.value_run c observer state
  rw [descendWith_eq_run hp]
  refine ⟨_, congrArg Except.ok (Logged.eq_mk_of_value_eq ?_)⟩
  exact congrArg (fun run => (run.1.estimates, run.2)) hrun

theorem accelerateWith_eq (solver : Solver α) (β θ : Vec α x.width)
    (observer : Observer α x.width σ) (state : σ) :
    let c := solver.acceleratedCourse p β θ
    let n := solver.params.iterations
    ∃ log, solver.accelerateWith x y β.toList θ.toList observer state =
      .ok ⟨(c.paths n, (observer.notifyAll (c.events n) state).value), log⟩ := by
  intro c n
  have hrun := Problem.value_run c observer state
  rw [accelerateWith_eq_run hp]
  exact ⟨_, congrArg Except.ok (Logged.eq_mk_of_value_eq hrun)⟩

end

end RidgeLogistic
