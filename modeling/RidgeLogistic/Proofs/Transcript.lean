import Mathlib.Data.Nat.Basic
import RidgeLogistic.Proofs.Fitted
import RidgeLogistic.Proofs.Search

/-!
# What a run writes to the log

The records of a run come from two places. Each search records the trials that failed, and
the observer that writes to the log records stalls and progress as it is told of them. The
loop interleaves them, an iteration at a time: first the trials, then the stall if there was
one, then the progress if it is due (`Problem.log_iterate`).

`Solver.relog` writes the log again for someone who has only the points that the steps
started from. It makes the gradient, the search and the objective at each candidate anew
through the checked calls, and takes from the outcome of the search how many trials failed.
`Solver.log_stream` says that it gives the log of the run, for both schemes, and that the log
of a fit is the one of its run and one record more.

Nothing is assumed of the arithmetic.
-/

namespace RidgeLogistic

variable {α : Type} [Scalar α] {d : Nat}

/-! ## The records of one iteration -/

/-- How many trials of a search failed: none where there was no slope to descend along, all
but the last where that one was accepted, and otherwise as many as there may be. -/
def Backtracking.failures (search : Backtracking α) (slope : α) (found : Found α) : Nat :=
  if slope == 0 then 0
  else if found.accepted then found.trials - 1
  else search.maxTrials

theorem Problem.log_backtrack (p : Problem α d) (search : Backtracking α) (penalty : α)
    (β grad : Vec α d) (step : α) :
    (p.backtrack search penalty β grad step).log =
      search.rejections (fun η => p.objective penalty (β - grad * η)) step
        (search.failures (grad.dot grad) (p.backtrack search penalty β grad step).value) := by
  rw [Backtracking.failures]
  split
  · next hflat => rw [p.backtrack_of_flat _ _ _ _ _ hflat]; rfl
  · next hslope =>
      rcases p.backtrack_cases search penalty β grad step (Bool.eq_false_iff.2 hslope) with
        ⟨i, -, -, -, hfound⟩ | ⟨-, hfound⟩
      · rw [hfound, if_pos rfl, Nat.add_sub_cancel]
      · rw [hfound]
        rfl

/-- What the observer that writes to the log makes of an iteration. -/
def Found.remarks (found : Found α) (every : Nat) (title : String) (iteration : Nat) :
    List (Record α) :=
  (if found.accepted then [] else [.stalled title iteration found.trials found.step]) ++
    if 0 < every ∧ every ∣ iteration then [.progress title iteration found.step] else []

theorem Observer.due_eq_true_iff {every iteration : Nat} :
    due every iteration = true ↔ 0 < every ∧ every ∣ iteration := by
  rw [due, Bool.and_eq_true, decide_eq_true_eq, beq_iff_eq, Nat.dvd_iff_mod_eq_zero]

omit [Scalar α] in
theorem Observer.log_notify_logger (every iteration : Nat) (title : String) (point : Vec α d)
    (step : α) :
    ((logger every).notify (.stepped title iteration point step) ()).log =
      if 0 < every ∧ every ∣ iteration then [.progress title iteration step] else [] := by
  show (if due every iteration then Logged.tell (.progress title iteration step)
    else pure () : Logged α Unit).log = _
  simp only [due_eq_true_iff]
  split <;> rfl

omit [Scalar α] in
theorem Scheme.log_notifyAll_events (scheme : Scheme) (every iteration : Nat) (found : Found α)
    (reached : Vec α d) :
    ((Observer.logger every).notifyAll (scheme.events iteration found reached) ()).log =
      found.remarks every scheme.title iteration := by
  rw [Found.remarks, ← Observer.log_notify_logger _ _ _ reached, events]
  split
  · exact List.append_nil _
  · exact congrArg ([_] ++ ·) (List.append_nil _)

/-! ## Along a course -/

namespace Course

variable (c : Course α d)

/-- The records that failed trials leave in iteration `k`. -/
def rejectionsAt (k : Nat) : List (Record α) :=
  let grad := c.gradientAt (c.origin k)
  c.params.search.rejections (fun η => c.objectiveAt (c.origin k - grad * η)) c.params.step
    (c.params.search.failures (grad.dot grad) (c.found k))

/-- All records of iteration `k`, which has the number `k + 1` there. -/
def recordsAt (every k : Nat) : List (Record α) :=
  c.rejectionsAt k ++ (c.found k).remarks every c.scheme.title (k + 1)

def records (every n : Nat) : List (Record α) :=
  (List.range n).flatMap (c.recordsAt every)

theorem log_backtrack_state (k : Nat) :
    (c.problem.backtrack c.params.search c.params.penalty (c.state k).origin (c.state k).grad
      c.params.step).log = c.rejectionsAt k := by
  rw [Problem.log_backtrack, rejectionsAt, found_eq, grad_state]
  rfl

end Course

/-- The loop with the observer that writes to the log, from iteration `k` on. The induction is
on the iterations that are left, as in `Problem.value_iterate`. -/
theorem Problem.log_iterate (c : Course α d) (every left k : Nat) :
    (c.problem.iterate c.scheme c.params (.logger every) left k (c.state k) ()).log =
      (List.range' k left).flatMap (c.recordsAt every) := by
  induction left generalizing k with
  | zero => rfl
  | succ left ih =>
      have hremarks := Scheme.log_notifyAll_events c.scheme every (k + 1) (c.found k)
        (c.estimate (k + 1))
      rw [iterate, List.range'_succ, List.flatMap_cons, ← ih (k + 1), Course.recordsAt,
        ← c.log_backtrack_state, ← hremarks, List.append_assoc]
      rfl

theorem Problem.run_logger (c : Course α d) (every : Nat) :
    Prod.fst <$> c.problem.run c.scheme c.params (.logger every) c.estimate₀ c.origin₀ () =
      ⟨c.paths c.params.iterations, c.records every c.params.iterations⟩ := by
  have hlog := Problem.log_iterate c every c.params.iterations 0
  rw [← List.range_eq_range'] at hlog
  have hvalue := congrArg Prod.fst (Problem.value_run c (.logger every) ())
  exact (Logged.eq_mk_of_value_eq hvalue).trans (congrArg (Logged.mk _) hlog)

/-! ## The log written again -/

/-- The records of an iteration, from the point that its step starts at. The gradient, the
search and the objective at each candidate come from calls that judge their data. -/
def Solver.recordsFrom (solver : Solver α) (x : Table α) (y : List α) (title : String)
    (point : Vec α x.width) (iteration : Nat) : Except (Error α) (List (Record α)) := do
  let params := solver.params
  let grad ← gradient x y point.toList params.penalty
  let found ← lineSearch x y point.toList params.penalty params.step params.search
  let failures := params.search.failures (grad.dot grad) found.value
  let rejections ← (List.range failures).mapM fun i => do
    let step := params.search.trial params.step i
    let value ← objective x y (point - grad * step).toList params.penalty
    return .rejected step value
  return rejections ++ found.value.remarks params.logEvery title iteration

/-- The log of a run, from the points that its steps started at, which are all but the last
of the trajectory. Iterations are counted from one. -/
def Solver.relog (solver : Solver α) (x : Table α) (y : List α) (title : String)
    (origins : Trajectory α x.width) : Except (Error α) (List (Record α)) :=
  List.flatten <$> ((origins.points.take solver.params.iterations).zipIdx 1).mapM fun start =>
    solver.recordsFrom x y title start.1 start.2

section

variable (solver : Solver α) {x : Table α} {y : List α} (c : Course α x.width)
  (hp : Problem.ofData x y = .ok c.problem) (hparams : c.params = solver.params)

include hp hparams

theorem Solver.recordsFrom_eq (k : Nat) :
    solver.recordsFrom x y c.scheme.title (c.origin k) (k + 1) =
      pure (c.recordsAt solver.params.logEvery k) := by
  have hpen := solver.checkPenalty_params
  have hgrad : gradient x y (c.origin k).toList solver.params.penalty =
      pure (c.gradientAt (c.origin k)) := by
    rw [gradient_eq hp hpen, Course.gradientAt, hparams]
    rfl
  -- The course searches with the gradient that it carries, the checked call with its own.
  have hfound : lineSearch x y (c.origin k).toList solver.params.penalty
      solver.params.step solver.params.search =
        pure ⟨c.found k, c.rejectionsAt k⟩ := by
    rw [lineSearch_eq hp, ← c.log_backtrack_state, Course.found, Course.search, c.grad_state,
      Course.gradientAt, hparams]
    rfl
  have hrejections : ∀ n, ((List.range n).mapM fun i => do
      let step := solver.params.search.trial solver.params.step i
      let value ← objective x y (c.origin k - c.gradientAt (c.origin k) * step).toList
        solver.params.penalty
      return .rejected step value) =
      (pure (solver.params.search.rejections
        (fun η => c.objectiveAt (c.origin k - c.gradientAt (c.origin k) * η))
        solver.params.step n) : Except (Error α) (List (Record α))) := by
    intro n
    simp only [objective_eq hp hpen, Course.objectiveAt, hparams]
    exact List.mapM_pure
  simp only [recordsFrom, hgrad, hfound, hrejections, pure_bind]
  rw [Course.recordsAt, Course.rejectionsAt, hparams]

theorem Solver.relog_eq :
    let n := solver.params.iterations
    solver.relog x y c.scheme.title (c.paths n).origins =
      .ok (c.records solver.params.logEvery n) := by
  intro n
  have hstarts : ((c.paths n).origins.points.take n).zipIdx 1 =
      (List.range n).map fun k => (c.origin k, k + 1) := by
    rw [Course.paths, Trajectory.points_along]
    apply List.ext_getElem
    · simp
    · intro k _ _
      simp [Nat.add_comm]
  rw [relog, hstarts, List.mapM_map]
  simp only [Function.comp_def, solver.recordsFrom_eq c hp hparams, List.mapM_pure]
  rfl

end

/-! ## The log of a solver -/

section

variable {x : Table α} {y : List α} {p : Problem α x.width}
variable (hp : Problem.ofData x y = .ok p)

include hp

theorem Solver.descend_eq (solver : Solver α) (β : Vec α x.width) :
    let c := solver.plainCourse p β
    let n := solver.params.iterations
    solver.descend x y β.toList =
      .ok ⟨(c.paths n).estimates, c.records solver.params.logEvery n⟩ := by
  intro c n
  have hrun := Problem.run_logger c solver.params.logEvery
  rw [descend, descendWith_eq_run hp]
  exact congrArg (fun run => Except.ok (Paths.estimates <$> run)) hrun

theorem Solver.accelerate_eq (solver : Solver α) (β θ : Vec α x.width) :
    let c := solver.acceleratedCourse p β θ
    let n := solver.params.iterations
    solver.accelerate x y β.toList θ.toList =
      .ok ⟨c.paths n, c.records solver.params.logEvery n⟩ := by
  intro c n
  rw [accelerate, accelerateWith_eq_run hp]
  exact congrArg Except.ok (Problem.run_logger c solver.params.logEvery)

end

/-! ## How much there is of it -/

omit [Scalar α] in
theorem Found.countP_debug_remarks (found : Found α) (every : Nat) (title : String)
    (k : Nat) :
    (found.remarks every title (k + 1)).countP (·.level == .debug) =
      if every ∣ k + 1 then 1 else 0 := by
  have hdue : (0 < every ∧ every ∣ k + 1) ↔ every ∣ k + 1 :=
    and_iff_right_of_imp fun h => Nat.pos_of_dvd_of_pos h (Nat.succ_pos k)
  have hstall : (if found.accepted then [] else
      [Record.stalled title (k + 1) found.trials found.step]).countP (·.level == .debug) = 0 := by
    split <;> rfl
  simp only [remarks, List.countP_append, hdue]
  rw [hstall, Nat.zero_add]
  split <;> rfl

theorem Course.countP_debug_records (c : Course α d) (every n : Nat) :
    (c.records every n).countP (·.level == .debug) = n / every := by
  induction n with
  | zero => exact (Nat.zero_div every).symm
  | succ n ih =>
      have hrejections : (c.rejectionsAt n).countP (·.level == .debug) = 0 := by
        rw [rejectionsAt, Backtracking.rejections, List.countP_map]
        exact List.countP_eq_zero.2 fun _ _ => Bool.false_ne_true
      rw [records, List.range_succ, List.flatMap_append, List.flatMap_singleton,
        List.countP_append, ← records, ih, recordsAt, List.countP_append, hrejections,
        Found.countP_debug_remarks, Nat.zero_add, Nat.succ_div]

/-! ## The log of a fit -/

section

variable [Eigensolver α] {model : Estimator α} {x : Table α} {y : List α}

theorem Estimator.log_of_fit {fitted : Logged α (Estimator α)}
    (h : model.fit x y = .ok fitted) :
    ∃ run, model.settings.run (model.settings.design x) y = .ok run ∧
      fitted.log = run.log ++
        [.fitted model.settings.scheme model.settings.penalty model.settings.iterations] := by
  obtain ⟨_, _, h⟩ := exists_of_bind_eq_ok h
  obtain ⟨run, hrun, h⟩ := exists_of_bind_eq_ok h
  refine ⟨run, hrun, ?_⟩
  rw [← Except.ok.inj h]
  rfl

/-- A fit is refused for its data, for want of a first step or for its parameters: once there
is a solver it is on its way to the end. -/
theorem Estimator.refusal_of_fit {fault : Error α} (h : model.fit x y = .error fault) :
    Problem.ofData x y = .error fault ∨
      model.settings.firstStep (model.settings.design x) = .error fault ∨
        ∃ step, model.settings.firstStep (model.settings.design x) = .ok step ∧
          Solver.ofParams (model.settings.params step) = .error fault := by
  rcases or_of_bind_eq_error h with hdata | ⟨p, hp, h⟩
  · exact Or.inl hdata
  · obtain ⟨q, hq⟩ := model.settings.exists_ofData_design_iff.2 ⟨p, hp⟩
    rcases or_of_bind_eq_error h with hrun | ⟨run, -, h⟩
    · rcases or_of_bind_eq_error hrun with hstep | ⟨step, hstep, hrun'⟩
      · exact Or.inr (Or.inl hstep)
      · rcases or_of_bind_eq_error hrun' with hsolver | ⟨solver, hsolver, -⟩
        · exact Or.inr (Or.inr ⟨step, hstep, hsolver⟩)
        · have hcheck : (model.settings.params step).check = .ok () := by
            rw [← Solver.params_of_ofParams hsolver]
            exact solver.accepted
          obtain ⟨log, hok⟩ := Settings.run_eq hq hstep hcheck
          rw [hok] at hrun
          injection hrun
    · injection h

end

/-- What a call leaves in the log. One that is refused leaves nothing. -/
def recordsLeft {β : Type} : Except (Error α) (Logged α β) → List (Record α)
  | .ok run => run.log
  | .error _ => []

/-- The log of a run is the one that its points tell again: for each iteration in order the
trials that failed, then a stall if there was one, then progress if it is due. Progress is all
that a run says at its level. A fit that succeeds adds one record to the log of its run, which
reports progress every hundred iterations; one that fails does so before its run and leaves
nothing. -/
theorem log_stream :
    (∀ (solver : Solver α) (x : Table α) (y : List α) p β start,
      Problem.ofData x y = .ok p → x.point .betaStart β = .ok start →
      ∃ path log, solver.descend x y β = .ok ⟨path, log⟩ ∧
        path.start = start ∧ path.length = solver.params.iterations + 1 ∧
        solver.relog x y "gradient descent" path = .ok log ∧
        log.countP (·.level == .debug) = solver.params.iterations / solver.params.logEvery) ∧
    (∀ (solver : Solver α) (x : Table α) (y : List α) p β θ start origin,
      Problem.ofData x y = .ok p → x.point .betaStart β = .ok start →
      x.point .thetaStart θ = .ok origin →
      ∃ paths log, solver.accelerate x y β θ = .ok ⟨paths, log⟩ ∧
        paths.origins.start = origin ∧ paths.origins.length = solver.params.iterations + 1 ∧
        solver.relog x y "fast gradient" paths.origins = .ok log ∧
        log.countP (·.level == .debug) = solver.params.iterations / solver.params.logEvery) ∧
    ∀ [Eigensolver α] (model : Estimator α) (x : Table α) (y : List α),
      let settings := model.settings
      let design := settings.design x
      (∀ fitted, model.fit x y = .ok fitted → ∃ step solver log,
        (settings.step = some step ∨ settings.step = none ∧
          initialStep design design.height design.width settings.penalty = .ok step) ∧
        Solver.ofParams
          { penalty := settings.penalty
            step := step
            iterations := settings.iterations
            search := settings.search
            logEvery := 100 } = .ok solver ∧
        (settings.scheme = .plain ∧
            (∃ path, solver.descend design y (List.replicate design.width 0) = .ok ⟨path, log⟩) ∨
          settings.scheme = .accelerated ∧
            ∃ paths, solver.accelerate design y (List.replicate design.width 0)
              (List.replicate design.width 0) = .ok ⟨paths, log⟩) ∧
        recordsLeft (model.fit x y) =
          log ++ [.fitted settings.scheme settings.penalty settings.iterations]) ∧
      ∀ fault, model.fit x y = .error fault →
        (Problem.ofData x y = .error fault ∨ settings.firstStep design = .error fault ∨
          ∃ step, settings.firstStep design = .ok step ∧
            Solver.ofParams (settings.params step) = .error fault) ∧
        recordsLeft (model.fit x y) = [] := by
  refine ⟨?_, ?_, ?_⟩
  · intro solver x y p β start hp hβ
    obtain rfl := Table.toList_of_point hβ
    let c := solver.plainCourse p start
    have hrelog : solver.relog x y _ (c.paths _).origins = _ := solver.relog_eq c hp rfl
    -- Plain steps start at the estimates, so the path alone tells where they did.
    rw [c.origins_eq_estimates rfl rfl] at hrelog
    exact ⟨_, _, solver.descend_eq hp start, rfl, Trajectory.length_along _ _, hrelog,
      c.countP_debug_records _ _⟩
  · intro solver x y p β θ start origin hp hβ hθ
    obtain rfl := Table.toList_of_point hβ
    obtain rfl := Table.toList_of_point hθ
    let c := solver.acceleratedCourse p start origin
    exact ⟨_, _, solver.accelerate_eq hp start origin, rfl, Trajectory.length_along _ _,
      solver.relog_eq c hp rfl, c.countP_debug_records _ _⟩
  · intro _ model x y settings design
    refine ⟨?_, ?_⟩
    · intro fitted hfit
      obtain ⟨run, hrun, hlog⟩ := Estimator.log_of_fit hfit
      obtain ⟨step, solver, hstep, hsolver, hcall⟩ := Settings.exists_solver_of_run hrun
      refine ⟨step, solver, run.log, hstep, hsolver, ?_, ?_⟩
      · cases hscheme : settings.scheme with
        | plain =>
            rw [hscheme] at hcall
            exact Or.inl ⟨rfl, run.value, hcall⟩
        | accelerated =>
            rw [hscheme] at hcall
            obtain ⟨paths, hpaths, rfl⟩ := hcall
            exact Or.inr ⟨rfl, paths.value, hpaths⟩
      · rw [hfit]
        exact hlog
    · intro fault hfit
      refine ⟨Estimator.refusal_of_fit hfit, ?_⟩
      rw [hfit]
      rfl

end RidgeLogistic
