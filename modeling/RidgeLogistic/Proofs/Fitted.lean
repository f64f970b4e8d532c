import RidgeLogistic.Proofs.Decisions
import RidgeLogistic.Proofs.History
import RidgeLogistic.Proofs.Spectral
import RidgeLogistic.Proofs.Parameters

/-!
# What a fit leaves

A fit hands its data to a solver and takes the solution apart: the first entry is the
intercept, where one is fitted, and the others are the coefficients. Scoring puts the two
together again on a design that is built anew. This file says that nothing is lost or moved
on the way, for any arithmetic.

`Settings.Solves` is the run that the settings ask for, in terms of the solvers as they are
called from outside; a run that succeeds is one of these, and it is the course of the settings
(`Settings.exists_course_of_run`). What is kept of its trajectory is taken apart in
`Estimator.exists_keep_eq` and put together in `Estimator.onDesign_eq`.
`Estimator.exists_solution_of_fit` has both, and draws the consequence that the figures on the
data of the fit are the last ones along its path.
-/

namespace RidgeLogistic

variable {α : Type} [Scalar α]

/-! ## The run that the settings ask for -/

namespace Settings

theorem width_design (settings : Settings α) (x : Table α) :
    (settings.design x).width = if settings.intercept then x.width + 1 else x.width := by
  rw [design]
  split <;> rfl

theorem height_design (settings : Settings α) (x : Table α) :
    (settings.design x).height = x.height := by
  rw [design]
  split
  · exact x.height_withOnes
  · rfl

theorem exists_ofData_design_iff (settings : Settings α) {x : Table α} {y : List α} :
    (∃ p, Problem.ofData (settings.design x) y = .ok p) ↔ ∃ p, Problem.ofData x y = .ok p :=
  Problem.exists_ofData_iff_of_height (settings.height_design x)

variable [Eigensolver α]

/-- A trajectory has the estimates of the chosen solver, run from zero on a design. The first
step is the chosen one, or where there is none the one derived from the design. -/
def Solves (settings : Settings α) (design : Table α) (y : List α)
    (path : Trajectory α design.width) : Prop :=
  ∃ step solver,
    (settings.step = some step ∨ settings.step = none ∧
      initialStep design design.height design.width settings.penalty = .ok step) ∧
    Solver.ofParams
      { penalty := settings.penalty
        step := step
        iterations := settings.iterations
        search := settings.search
        logEvery := 100 } = .ok solver ∧
    let origin := List.replicate design.width 0
    match settings.scheme with
    | .plain => ∃ log, solver.descend design y origin = .ok ⟨path, log⟩
    | .accelerated =>
      ∃ origins log, solver.accelerate design y origin origin = .ok ⟨⟨path, origins⟩, log⟩

section

variable {settings : Settings α} {design : Table α} {y : List α}

/-- A run that succeeds is one of the chosen scheme, by a solver with the parameters of the
settings and the chosen first step or the derived one. -/
theorem exists_solver_of_run {run : Logged α (Trajectory α design.width)}
    (h : settings.run design y = .ok run) :
    ∃ step solver,
      (settings.step = some step ∨ settings.step = none ∧
        initialStep design design.height design.width settings.penalty = .ok step) ∧
      Solver.ofParams (settings.params step) = .ok solver ∧
      let origin := List.replicate design.width 0
      match settings.scheme with
      | .plain => solver.descend design y origin = .ok run
      | .accelerated => ∃ paths, solver.accelerate design y origin origin = .ok paths ∧
          Paths.estimates <$> paths = run := by
  obtain ⟨step, hstep, h⟩ := exists_of_bind_eq_ok h
  obtain ⟨solver, hsolver, h⟩ := exists_of_bind_eq_ok h
  refine ⟨step, solver, ?_, hsolver, ?_⟩
  · rw [firstStep] at hstep
    cases hset : settings.step with
    | some η =>
        rw [hset] at hstep
        exact Or.inl (congrArg some (Except.ok.inj hstep))
    | none =>
        rw [hset] at hstep
        exact Or.inr ⟨rfl, hstep⟩
  · cases hscheme : settings.scheme with
    | plain =>
        rw [hscheme] at h
        exact h
    | accelerated =>
        rw [hscheme] at h
        obtain ⟨paths, hpaths, h⟩ := exists_of_bind_eq_ok h
        exact ⟨paths, hpaths, Except.ok.inj h⟩

theorem solves_of_run {run : Logged α (Trajectory α design.width)}
    (h : settings.run design y = .ok run) : settings.Solves design y run.value := by
  obtain ⟨step, solver, hstep, hsolver, h⟩ := exists_solver_of_run h
  refine ⟨step, solver, hstep, hsolver, ?_⟩
  cases hscheme : settings.scheme with
  | plain =>
      rw [hscheme] at h
      exact ⟨run.log, h⟩
  | accelerated =>
      rw [hscheme] at h
      obtain ⟨paths, hpaths, rfl⟩ := h
      exact ⟨paths.value.origins, paths.log, hpaths⟩

theorem Solves.exists_problem {path : Trajectory α design.width}
    (h : settings.Solves design y path) : ∃ p, Problem.ofData design y = .ok p := by
  obtain ⟨step, solver, -, -, h⟩ := h
  cases hscheme : settings.scheme with
  | plain =>
      rw [hscheme] at h
      obtain ⟨log, h⟩ := h
      obtain ⟨run, hrun, -⟩ := exists_of_map_eq_ok h
      obtain ⟨p, hp, -⟩ := exists_of_bind_eq_ok hrun
      exact ⟨p, hp⟩
  | accelerated =>
      rw [hscheme] at h
      obtain ⟨origins, log, h⟩ := h
      obtain ⟨run, hrun, -⟩ := exists_of_map_eq_ok h
      obtain ⟨p, hp, -⟩ := exists_of_bind_eq_ok hrun
      exact ⟨p, hp⟩

/-- A run that succeeds passed all checks, and went along the course of its settings. -/
theorem exists_course_of_run {run : Logged α (Trajectory α design.width)}
    (h : settings.run design y = .ok run) :
    ∃ p step, Problem.ofData design y = .ok p ∧ settings.firstStep design = .ok step ∧
      (settings.params step).check = .ok () ∧
      run.value = ((settings.course p step).paths settings.iterations).estimates := by
  obtain ⟨p, hp⟩ := (solves_of_run h).exists_problem
  obtain ⟨step, hstep, hrest⟩ := exists_of_bind_eq_ok h
  obtain ⟨solver, hsolver, -⟩ := exists_of_bind_eq_ok hrest
  have hcheck : (settings.params step).check = .ok () := by
    rw [← Solver.params_of_ofParams hsolver]
    exact solver.accepted
  obtain ⟨log, hrun⟩ := run_eq hp hstep hcheck
  exact ⟨p, step, hp, hstep, hcheck,
    congrArg Logged.value (Except.ok.inj (h.symm.trans hrun))⟩

end

end Settings

/-! ## Taking the solution apart and putting it together -/

namespace Estimator

/-- What is kept of a trajectory on the design: its last point, the intercept taken off in
front where the settings have one. -/
theorem exists_keep_eq (model : Estimator α) {x : Table α}
    (path : Trajectory α (model.settings.design x).width) :
    ∃ (w : Vec α x.width) (b : α),
      model.keep path =
        { settings := model.settings
          coefficients := some w.toList
          intercept := some b
          path := some ⟨_, path⟩ } ∧
      path.last.toList = (if model.settings.intercept then b :: w.toList else w.toList) ∧
      (model.settings.intercept = false → b = 0) := by
  have hlength := path.last.length_toList.trans (model.settings.width_design x)
  cases hflag : model.settings.intercept with
  | false =>
      rw [hflag] at hlength
      refine ⟨⟨path.last.toList, hlength⟩, 0, ?_, rfl, fun _ => rfl⟩
      rw [keep, hflag]
      rfl
  | true =>
      rw [hflag] at hlength
      obtain ⟨b, w, hlast⟩ := List.exists_cons_of_length_eq_add_one hlength
      rw [hlast, if_pos rfl, List.length_cons, Nat.add_right_cancel_iff] at hlength
      refine ⟨⟨w, hlength⟩, b, ?_, hlast, fun h => Bool.noConfusion h⟩
      rw [keep, hflag, hlast]
      rfl

theorem onDesign_eq {model : Estimator α} {c : List α} (h : model.coefficients = some c)
    (x : Table α) :
    model.onDesign x = .ok (model.settings.design x,
      if model.settings.intercept then model.intercept.getD 0 :: c else c) := by
  rw [onDesign, h, Settings.design]
  cases model.settings.intercept <;> rfl

/-- Coefficients of the width of a table, with the intercept, are of the width of its design. -/
theorem exists_onDesign {model : Estimator α} {x : Table α} {w : Vec α x.width}
    (h : model.coefficients = some w.toList) :
    ∃ β : Vec α (model.settings.design x).width,
      model.onDesign x = .ok (model.settings.design x, β.toList) := by
  rw [onDesign_eq h, Settings.design]
  cases model.settings.intercept with
  | false => exact ⟨w, rfl⟩
  | true => exact ⟨Vec.cons (model.intercept.getD 0) w, rfl⟩

theorem errorRate_eq {model : Estimator α} {c : List α} (h : model.coefficients = some c)
    (x : Table α) (y : List α) :
    model.errorRate x y = misclassification (model.settings.design x) y
      (if model.settings.intercept then model.intercept.getD 0 :: c else c) := by
  rw [errorRate, onDesign_eq h]
  rfl

/-- A model that has coefficients on a design has their objective there, whatever the
penalty. -/
theorem objectiveValue_eq_ok_iff {model : Estimator α} {x design : Table α} {y β : List α}
    (hdesign : model.onDesign x = .ok (design, β)) {value : α} :
    model.objectiveValue x y = .ok value ↔
      (∃ q, Problem.ofData x y = .ok q) ∧
        ∃ (p : Problem α design.width) (w : Vec α design.width),
          Problem.ofData design y = .ok p ∧ w.toList = β ∧
            value = p.objective model.settings.penalty w := by
  constructor
  · intro h
    obtain ⟨q, hq, h⟩ := exists_of_bind_eq_ok h
    obtain ⟨_, hon, h⟩ := exists_of_bind_eq_ok h
    obtain rfl := Except.ok.inj (hdesign.symm.trans hon)
    obtain ⟨p, hp, h⟩ := exists_of_bind_eq_ok h
    obtain ⟨w, hw, h⟩ := exists_of_bind_eq_ok h
    exact ⟨⟨q, hq⟩, p, w, hp, Table.toList_of_point hw, (Except.ok.inj h).symm⟩
  · rintro ⟨⟨q, hq⟩, p, w, hp, rfl, rfl⟩
    rw [objectiveValue, hq, hdesign]
    show (Problem.ofData design y >>= fun p => _) = _
    rw [hp]
    show (design.point .coefficients w.toList >>= fun β => _) = _
    rw [Table.point_toList]
    rfl

end Estimator

theorem objective_eq_ok_iff {x : Table α} {y β : List α} {penalty value : α} :
    objective x y β penalty = .ok value ↔
      checkPenalty penalty = .ok () ∧
        ∃ (p : Problem α x.width) (w : Vec α x.width),
          Problem.ofData x y = .ok p ∧ w.toList = β ∧ value = p.objective penalty w := by
  constructor
  · intro h
    obtain ⟨p, hp, h⟩ := exists_of_bind_eq_ok h
    obtain ⟨w, hw, h⟩ := exists_of_bind_eq_ok h
    obtain ⟨_, hpen, h⟩ := exists_of_bind_eq_ok h
    exact ⟨hpen, p, w, hp, Table.toList_of_point hw, (Except.ok.inj h).symm⟩
  · rintro ⟨hpen, p, w, hp, rfl, rfl⟩
    exact objective_eq hp hpen w

/-! Both figures of a model are those of its intercept and coefficients put together. -/

namespace Estimator

section

variable (settings : Settings α) (w : List α) (b : α) (path : Option (Σ d, Trajectory α d))
  (x : Table α) (y : List α)

theorem errorRate_of_solution :
    errorRate ⟨settings, some w, some b, path⟩ x y =
      misclassification (settings.design x) y (if settings.intercept then b :: w else w) :=
  errorRate_eq rfl x y

/-- The penalty is judged by the function alone. -/
theorem objectiveValue_of_solution (hpen : checkPenalty settings.penalty = .ok ()) (value : α) :
    objectiveValue ⟨settings, some w, some b, path⟩ x y = .ok value ↔
      objective (settings.design x) y (if settings.intercept then b :: w else w)
        settings.penalty = .ok value := by
  rw [objective_eq_ok_iff]
  refine (objectiveValue_eq_ok_iff (onDesign_eq rfl x)).trans ?_
  refine ⟨fun h => ⟨hpen, h.2⟩, fun h => ⟨?_, h.2⟩⟩
  obtain ⟨-, q, -, hq, -⟩ := h
  exact settings.exists_ofData_design_iff.1 ⟨q, hq⟩

end

end Estimator

theorem misclassifications_eq {x : Table α} {y : List α} {p : Problem α x.width}
    (hp : Problem.ofData x y = .ok p) (path : Trajectory α x.width) :
    path.misclassifications x y = .ok (path.points.map p.misclassification) :=
  mapM_eq_ok_map (fun point => misclassification_eq hp point) path.points

/-! ## Predictions -/

namespace Estimator

variable {model : Estimator α} {x : Table α} {w : Vec α x.width}

theorem probabilities_eq (h : model.coefficients = some w.toList) :
    model.probabilities x =
      .ok (x.rows.map fun row => sigmoid (row.dot w + model.intercept.getD 0)) := by
  rw [probabilities, h]
  show (x.point .coefficients w.toList >>= fun β => _) = _
  rw [Table.point_toList]
  rfl

omit w in
/-- A model has probabilities for a table exactly if it has coefficients of its width. -/
theorem probabilities_eq_ok_iff {values : List α} :
    model.probabilities x = .ok values ↔
      ∃ w : Vec α x.width, model.coefficients = some w.toList ∧
        values = x.rows.map fun row => sigmoid (row.dot w + model.intercept.getD 0) := by
  constructor
  · intro h
    rw [probabilities] at h
    cases hc : model.coefficients with
    | none => rw [hc] at h; injection h
    | some c =>
        rw [hc] at h
        obtain ⟨w, hw, hvalues⟩ := exists_of_bind_eq_ok h
        exact ⟨w, congrArg some (Table.toList_of_point hw).symm, (Except.ok.inj hvalues).symm⟩
  · rintro ⟨w, hw, rfl⟩
    exact probabilities_eq hw

omit w in
theorem predict_eq_ok_iff {labels : List Label} :
    model.predict x = .ok labels ↔
      ∃ values, model.probabilities x = .ok values ∧
        values.map Label.ofProbability = labels := by
  constructor
  · intro h
    obtain ⟨values, hvalues, h⟩ := exists_of_bind_eq_ok h
    exact ⟨values, hvalues, Except.ok.inj h⟩
  · rintro ⟨values, hvalues, rfl⟩
    rw [predict, hvalues]
    rfl

theorem predict_eq (h : model.coefficients = some w.toList) :
    model.predict x =
      .ok (x.rows.map fun row => Label.ofScore (row.dot w + model.intercept.getD 0)) := by
  rw [predict, probabilities_eq h]
  show Except.ok (List.map _ (List.map _ x.rows)) = _
  rw [List.map_map]
  rfl

/-- Predictions look at the scores of the rows alone. -/
theorem predictions_congr {d : Nat} {w : Vec α d} (h : model.coefficients = some w.toList)
    {rows rows' : List (Vec α d)} (hscores : rows'.map (·.dot w) = rows.map (·.dot w)) :
    model.probabilities ⟨d, rows'⟩ = model.probabilities ⟨d, rows⟩ ∧
      model.predict ⟨d, rows'⟩ = model.predict ⟨d, rows⟩ := by
  have hprobabilities : ∀ rows : List (Vec α d), model.probabilities ⟨d, rows⟩ =
      .ok ((rows.map (·.dot w)).map fun score => sigmoid (score + model.intercept.getD 0)) := by
    intro rows
    rw [List.map_map]
    exact probabilities_eq h
  have hsame : model.probabilities ⟨d, rows'⟩ = model.probabilities ⟨d, rows⟩ := by
    rw [hprobabilities, hprobabilities, hscores]
  exact ⟨hsame, by rw [predict, predict, hsame]⟩

end Estimator

/-! ## Fits that succeed -/

variable [Eigensolver α]

namespace Estimator

/-- When a fit succeeds. -/
theorem exists_fit_iff {model : Estimator α} {x : Table α} {y : List α} :
    (∃ fitted, model.fit x y = .ok fitted) ↔
      (∃ p, Problem.ofData x y = .ok p) ∧
        ∃ step, model.settings.firstStep (model.settings.design x) = .ok step ∧
          (model.settings.params step).check = .ok () := by
  constructor
  · rintro ⟨fitted, h⟩
    obtain ⟨run, hrun, -⟩ := value_of_fit h
    obtain ⟨p, step, hp, hstep, hcheck, -⟩ := Settings.exists_course_of_run hrun
    exact ⟨model.settings.exists_ofData_design_iff.1 ⟨p, hp⟩, step, hstep, hcheck⟩
  · rintro ⟨⟨p, hp⟩, step, hstep, hcheck⟩
    obtain ⟨q, hq⟩ := model.settings.exists_ofData_design_iff.2 ⟨p, hp⟩
    obtain ⟨_, hrun⟩ := Settings.run_eq hq hstep hcheck
    obtain ⟨_, hfit⟩ := fit_eq hp hrun
    exact ⟨_, hfit⟩

/-- A fit that succeeds keeps the path of the chosen solver on the design, and the last point
of it as intercept and coefficients. As long as no setting is chosen anew, the model has on
any data the figures of that point on the design; and on the data of the fit they are the last
ones along the path. -/
theorem exists_solution_of_fit {model : Estimator α} {x : Table α} {y : List α}
    {fitted : Logged α (Estimator α)} (h : model.fit x y = .ok fitted) :
    let settings := model.settings
    let design := settings.design
    ∃ (path : Trajectory α (design x).width) (w : Vec α x.width) (b : α),
      settings.Solves (design x) y path ∧
      path.length = settings.iterations + 1 ∧
      fitted.value =
        { settings
          coefficients := some w.toList
          intercept := some b
          path := some ⟨_, path⟩ } ∧
      w.toList.length = x.width ∧
      path.last.toList = (if settings.intercept then b :: w.toList else w.toList) ∧
      (settings.intercept = false → b = 0) ∧
      (∀ x' y', fitted.value.errorRate x' y' =
        misclassification (design x') y' path.last.toList) ∧
      (∀ x' y' value, fitted.value.objectiveValue x' y' = .ok value ↔
        objective (design x') y' path.last.toList settings.penalty = .ok value) ∧
      ∃ rates rate values value,
        path.misclassifications (design x) y = .ok rates ∧ rates.getLast? = some rate ∧
        fitted.value.errorRate x y = .ok rate ∧
        path.objectives (design x) y settings.penalty = .ok values ∧
        values.getLast? = some value ∧
        fitted.value.objectiveValue x y = .ok value := by
  intro settings design
  obtain ⟨run, hrun, hvalue⟩ := value_of_fit h
  obtain ⟨p, step, hp, -, hcheck, hcourse⟩ := Settings.exists_course_of_run hrun
  obtain ⟨w, b, hkeep, hlast, hb⟩ := model.exists_keep_eq run.value
  have hpen : checkPenalty settings.penalty = .ok () :=
    Solver.checkPenalty_params ⟨settings.params step, hcheck⟩
  have hstate := hvalue.trans hkeep
  have herror : ∀ x' y', fitted.value.errorRate x' y' =
      misclassification (design x') y' run.value.last.toList := by
    intro x' y'
    rw [hstate, errorRate_of_solution, hlast]
  have hobjective : ∀ x' y' value, fitted.value.objectiveValue x' y' = .ok value ↔
      objective (design x') y' run.value.last.toList settings.penalty = .ok value := by
    intro x' y' value
    rw [hstate, objectiveValue_of_solution _ _ _ _ _ _ hpen, hlast]
  refine ⟨run.value, w, b, Settings.solves_of_run hrun, ?_, hstate, w.length_toList, hlast, hb,
    herror, hobjective, _, p.misclassification run.value.last, _,
    p.objective settings.penalty run.value.last, misclassifications_eq hp run.value, ?_, ?_,
    objectives_eq hp hpen run.value, ?_, ?_⟩
  · rw [hcourse]
    exact Trajectory.length_along _ _
  · exact run.value.getLast?_map_points _
  · exact (herror x y).trans (misclassification_eq hp _)
  · exact run.value.getLast?_map_points _
  · exact (hobjective x y _).2 (objective_eq hp hpen _)

/-- One sample, two iterations, and an intercept. -/
theorem exists_solution_of_fit_single :
    let model : Estimator ℝ := ofSettings
      { Settings.standard with step := some 1, iterations := 2, intercept := true }
    let x : Table ℝ := ⟨1, [Vec.replicate 1 3]⟩
    ∃ fitted, model.fit x [1] = .ok fitted ∧
      ∃ (path : Trajectory ℝ 2) (w : Vec ℝ 1) (b : ℝ) (rates : List ℝ) (rate : ℝ),
        fitted.value.path = some ⟨2, path⟩ ∧ path.length = 3 ∧
        fitted.value.coefficients = some w.toList ∧ fitted.value.intercept = some b ∧
        path.last.toList = b :: w.toList ∧
        path.misclassifications x.withOnes [1] = .ok rates ∧ rates.getLast? = some rate ∧
        fitted.value.errorRate x [1] = .ok rate := by
  intro model x
  let p : Problem ℝ 1 := ⟨[⟨Vec.replicate 1 3, .positive⟩], List.cons_ne_nil _ _⟩
  have hp : Problem.ofData x [1] = .ok p := p.ofData_table
  have hsound : (model.settings.params 1).Sound :=
    Params.sound_standard (show (0 : ℝ) ≤ 0.1 by norm_num) zero_lt_one 2
  obtain ⟨fitted, hfit⟩ : ∃ fitted, model.fit x [1] = .ok fitted :=
    exists_fit_iff.2 ⟨⟨p, hp⟩, 1, rfl, Params.check_eq_ok_iff.2 hsound⟩
  obtain ⟨path, w, b, -, hlength, hstate, -, hlast, -, -, -, rates, rate, _, _, hrates, hrate,
    herror, -⟩ := exists_solution_of_fit hfit
  refine ⟨fitted, hfit, path, w, b, rates, rate, ?_, hlength, ?_, ?_, hlast, hrates, hrate,
    herror⟩
  · rw [hstate]
    rfl
  · rw [hstate]
  · rw [hstate]

end Estimator

end RidgeLogistic
