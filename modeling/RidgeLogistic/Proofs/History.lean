import RidgeLogistic.Estimator
import RidgeLogistic.Proofs.Checked

/-!
# Fits and histories

What a fit does to a model, and what a model becomes by settings chosen and fits made in
any order. A fit that succeeds keeps the path of a run that starts at zero on the design
(`Estimator.value_of_fit`); where everything that is judged passes, that run is the course
of the settings (`Settings.run_eq`). A fit that fails leaves the model as it was. So an
action either chooses a setting, keeps a path or does nothing
(`Estimator.perform_cases`), and what these three preserve holds after every history.
-/

namespace RidgeLogistic

variable {α : Type} [Scalar α]

/-! ## Fits -/

theorem Solver.ofParams_of_check {params : Params α} (h : params.check = .ok ()) :
    Solver.ofParams params = .ok ⟨params, h⟩ := by
  rw [ofParams]
  split
  · rfl
  · next fault hfault => rw [h] at hfault; injection hfault

theorem Solver.params_of_ofParams {params : Params α} {solver : Solver α}
    (h : Solver.ofParams params = .ok solver) : solver.params = params := by
  rw [ofParams] at h
  split at h
  · rw [← Except.ok.inj h]
  · injection h

def Settings.course {d : Nat} (settings : Settings α) (p : Problem α d) (step : α) :
    Course α d where
  problem := p
  scheme := settings.scheme
  params := settings.params step
  estimate₀ := 0
  origin₀ := 0

variable [Eigensolver α]

theorem Settings.run_eq {settings : Settings α} {design : Table α} {y : List α}
    {p : Problem α design.width} (hp : Problem.ofData design y = .ok p) {step : α}
    (hstep : settings.firstStep design = .ok step)
    (hparams : (settings.params step).check = .ok ()) :
    ∃ log, settings.run design y =
      .ok ⟨((settings.course p step).paths settings.iterations).estimates, log⟩ := by
  let solver : Solver α := ⟨settings.params step, hparams⟩
  let logger : Observer α design.width Unit := .logger solver.params.logEvery
  rw [run, hstep]
  show ∃ log, (Solver.ofParams (settings.params step) >>= fun solver => _) = _
  rw [Solver.ofParams_of_check hparams]
  cases hscheme : settings.scheme with
  | plain =>
      have hcourse : settings.course p step = solver.plainCourse p 0 := by
        rw [course, hscheme]
        rfl
      obtain ⟨log, hrun⟩ := descendWith_eq hp solver 0 logger ()
      rw [hcourse]
      exact ⟨log, congrArg (fun run => Functor.map Prod.fst <$> run) hrun⟩
  | accelerated =>
      have hcourse : settings.course p step = solver.acceleratedCourse p 0 0 := by
        rw [course, hscheme]
        rfl
      obtain ⟨log, hrun⟩ := accelerateWith_eq hp solver 0 0 logger ()
      have hpaths := congrArg (fun run => Functor.map Prod.fst <$> run) hrun
      rw [hcourse]
      exact ⟨log, congrArg (fun run => run >>= fun paths => pure (Paths.estimates <$> paths))
        hpaths⟩

/-- A fit keeps the path of the run that the settings ask for. -/
theorem Estimator.value_of_fit {model : Estimator α} {x : Table α} {y : List α}
    {fitted : Logged α (Estimator α)} (h : model.fit x y = .ok fitted) :
    ∃ run, model.settings.run (model.settings.design x) y = .ok run ∧
      fitted.value = model.keep run.value := by
  obtain ⟨_, _, h⟩ := exists_of_bind_eq_ok h
  obtain ⟨run, hrun, h⟩ := exists_of_bind_eq_ok h
  refine ⟨run, hrun, ?_⟩
  rw [← Except.ok.inj h]
  rfl

theorem Estimator.fit_eq {model : Estimator α} {x : Table α} {y : List α}
    {p : Problem α x.width} (hp : Problem.ofData x y = .ok p)
    {run : Logged α (Trajectory α (model.settings.design x).width)}
    (hrun : model.settings.run (model.settings.design x) y = .ok run) :
    ∃ log, model.fit x y = .ok ⟨model.keep run.value, log⟩ := by
  rw [fit, hp, hrun]
  exact ⟨_, rfl⟩

omit [Eigensolver α] in
theorem Estimator.keep_of_intercept {model : Estimator α}
    (hflag : model.settings.intercept = true) {d : Nat} {path : Trajectory α (d + 1)} {b : α}
    {w : Vec α d} (h : path.last = Vec.cons b w) :
    model.keep path =
      { model with
        coefficients := some w.toList
        intercept := some b
        path := some ⟨_, path⟩ } := by
  rw [keep, if_pos hflag, h]
  rfl

/-! ## Histories -/

/-- What is done with a model: a setting is chosen, or the model is fitted. -/
inductive Action (α : Type) where
  | set (setting : Setting α)
  | fit (x : Table α) (y : List α)

namespace Estimator

def perform (model : Estimator α) : Action α → Estimator α
  | .set setting => model.set setting
  | .fit x y =>
    match model.fit x y with
    | .ok fitted => fitted.value
    | .error _ => model

def after (history : List (Action α)) : Estimator α :=
  history.foldl perform (ofSettings .standard)

theorem perform_fit_of_ok {model : Estimator α} {x : Table α} {y : List α}
    {fitted : Logged α (Estimator α)} (h : model.fit x y = .ok fitted) :
    model.perform (.fit x y) = fitted.value := by
  rw [perform, h]

/-- All that an action can do. -/
theorem perform_cases (model : Estimator α) (action : Action α) :
    (∃ setting, action = .set setting ∧ model.perform action = model.set setting) ∨
    (∃ (d : Nat) (path : Trajectory α d), model.perform action = model.keep path) ∨
    model.perform action = model := by
  cases action with
  | set setting => exact Or.inl ⟨setting, rfl, rfl⟩
  | fit x y =>
      cases h : model.fit x y with
      | error fault =>
          refine Or.inr (Or.inr ?_)
          rw [perform, h]
      | ok fitted =>
          obtain ⟨run, -, hvalue⟩ := value_of_fit h
          refine Or.inr (Or.inl ⟨_, run.value, ?_⟩)
          rw [perform_fit_of_ok h, hvalue]

end Estimator

end RidgeLogistic
