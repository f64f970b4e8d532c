import RidgeLogistic.Proofs.Fitted

/-!
# An intercept as a feature

A model with an intercept is a model without one whose table has a column of ones in front.
The two take different ways: the one builds the design from the table and takes the first
entry of the solution off, the other is given the design and keeps the solution as it is.

`Estimator.augmented` turns the first into the second. It commutes with fitting
(`Estimator.fit_withOnes`), refusals included, and the figures that are computed on the design
do not tell the two apart, for any arithmetic. Predictions add the intercept to the products
where the other model has it in the product, so they agree where addition is exact.
-/

namespace RidgeLogistic

section

variable {α : Type} [Scalar α]

namespace Estimator

/-- The model that has the intercept as the coefficient of a first feature. -/
def augmented (model : Estimator α) : Estimator α where
  settings := model.settings.set (.intercept false)
  coefficients := model.coefficients.map (model.intercept.getD 0 :: ·)
  intercept := some 0
  path := model.path

theorem keep_augmented (model : Estimator α) {d : Nat} (path : Trajectory α (d + 1)) :
    ((model.set (.intercept true)).keep path).augmented =
      (model.set (.intercept false)).keep path := by
  obtain ⟨b, w, hlast⟩ := List.exists_cons_of_length_eq_add_one path.last.length_toList
  rw [keep, keep, hlast]
  rfl

/-- The model with an intercept and the one without make the same run, on the same design. -/
theorem fit_withOnes [Eigensolver α] (model : Estimator α) (x : Table α) (y : List α) :
    (model.set (.intercept false)).fit x.withOnes y =
      Functor.map augmented <$> (model.set (.intercept true)).fit x y := by
  cases hp : Problem.ofData x y with
  | error fault =>
      have hones : Problem.ofData x.withOnes y = .error fault :=
        (Problem.ofData_eq_error_iff_of_height x.height_withOnes).2 hp
      rw [fit, fit, hp, hones]
      rfl
  | ok p =>
      obtain ⟨q, hq⟩ := (Problem.exists_ofData_iff_of_height x.height_withOnes).2 ⟨p, hp⟩
      have hdesign : (model.set (.intercept true)).settings.design x = x.withOnes := rfl
      have hdesign' : (model.set (.intercept false)).settings.design x.withOnes = x.withOnes := rfl
      have hrun : (model.set (.intercept false)).settings.run x.withOnes y =
          (model.set (.intercept true)).settings.run x.withOnes y := rfl
      rw [fit, fit, hp, hq, hdesign, hdesign', hrun]
      cases (model.set (.intercept true)).settings.run x.withOnes y with
      | error fault => rfl
      | ok run =>
          exact congrArg (fun fitted => Except.ok (Logged.mk fitted (run.log ++
            [.fitted model.settings.scheme model.settings.penalty model.settings.iterations])))
            (model.keep_augmented run.value).symm

theorem onDesign_augmented {model : Estimator α} (hflag : model.settings.intercept = true)
    (x : Table α) : model.augmented.onDesign x.withOnes = model.onDesign x := by
  rw [onDesign, onDesign, hflag, augmented]
  cases model.coefficients <;> rfl

theorem errorRate_augmented {model : Estimator α} (hflag : model.settings.intercept = true)
    (x : Table α) (y : List α) :
    model.augmented.errorRate x.withOnes y = model.errorRate x y := by
  rw [errorRate, errorRate, onDesign_augmented hflag]

theorem score_augmented {model : Estimator α} (hflag : model.settings.intercept = true)
    (x : Table α) (y : List α) :
    model.augmented.score x.withOnes y = model.score x y := by
  rw [score, score, errorRate_augmented hflag]

theorem objectiveValue_augmented {model : Estimator α}
    (hflag : model.settings.intercept = true) (x : Table α) (y : List α) :
    model.augmented.objectiveValue x.withOnes y = model.objectiveValue x y := by
  rw [objectiveValue, objectiveValue, onDesign_augmented hflag]
  cases hp : Problem.ofData x y with
  | error fault =>
      have hones : Problem.ofData x.withOnes y = .error fault :=
        (Problem.ofData_eq_error_iff_of_height x.height_withOnes).2 hp
      rw [hones]
      rfl
  | ok p =>
      obtain ⟨q, hq⟩ := (Problem.exists_ofData_iff_of_height x.height_withOnes).2 ⟨p, hp⟩
      rw [hq]
      rfl

end Estimator

end

/-! ## Predictions, where addition is exact -/

namespace Estimator

variable {model : Estimator ℝ} {x : Table ℝ}

theorem probabilities_augmented {values : List ℝ} :
    model.augmented.probabilities x.withOnes = .ok values ↔
      model.probabilities x = .ok values := by
  have hscore : ∀ w : Vec ℝ x.width,
      (x.withOnes.rows.map fun row => sigmoid (row.dot (Vec.cons (model.intercept.getD 0) w) +
        model.augmented.intercept.getD 0)) =
      x.rows.map fun row => sigmoid (row.dot w + model.intercept.getD 0) := by
    intro w
    refine (List.map_map ..).trans (List.map_congr_left fun row _ => congrArg sigmoid ?_)
    show (Vec.cons 1 row).dot (Vec.cons _ w) + 0 = _
    rw [Vec.cons_dot_cons, one_mul, add_zero, add_comm]
  rw [probabilities_eq_ok_iff, probabilities_eq_ok_iff]
  constructor
  · rintro ⟨v, hv, rfl⟩
    obtain ⟨c, hc, hcons⟩ := Option.map_eq_some_iff.1 hv
    obtain ⟨w, rfl, rfl⟩ := Vec.exists_eq_cons hcons.symm
    exact ⟨w, hc, hscore w⟩
  · rintro ⟨w, hw, rfl⟩
    refine ⟨Vec.cons (model.intercept.getD 0) w, ?_, (hscore w).symm⟩
    exact congrArg (Option.map _) hw

theorem predict_augmented {labels : List Label} :
    model.augmented.predict x.withOnes = .ok labels ↔ model.predict x = .ok labels := by
  simp only [predict_eq_ok_iff, probabilities_augmented]

end Estimator

/-- A model with an intercept and the same model without one, fitted to the table with a column
of ones in front, are refused together and for the same fault, or get the same path; the
coefficients of the second are the intercept and the coefficients of the first. On any data
both have the same error rate, score and objective, or lack it for the same fault. Over exact
arithmetic they also give the same probabilities and predictions. -/
theorem Estimator.fit_augmented :
    (∀ (α : Type) [Scalar α] [Eigensolver α] (model : Estimator α) (x : Table α) (y : List α),
      (∀ fault, (model.set (.intercept true)).fit x y = .error fault ↔
        (model.set (.intercept false)).fit x.withOnes y = .error fault) ∧
      ∀ fitted, (model.set (.intercept true)).fit x y = .ok fitted →
        ∃ fitted' b w, (model.set (.intercept false)).fit x.withOnes y = .ok fitted' ∧
          fitted'.value.path = fitted.value.path ∧
          fitted.value.intercept = some b ∧ fitted.value.coefficients = some w ∧
          fitted'.value.coefficients = some (b :: w) ∧
          ∀ (x' : Table α) (y' : List α),
            fitted'.value.errorRate x'.withOnes y' = fitted.value.errorRate x' y' ∧
            fitted'.value.score x'.withOnes y' = fitted.value.score x' y' ∧
            fitted'.value.objectiveValue x'.withOnes y' =
              fitted.value.objectiveValue x' y') ∧
    ∀ [Eigensolver ℝ] (model : Estimator ℝ) (x : Table ℝ) (y : List ℝ) fitted fitted',
      (model.set (.intercept true)).fit x y = .ok fitted →
      (model.set (.intercept false)).fit x.withOnes y = .ok fitted' →
      ∀ x' : Table ℝ,
        (∀ values, fitted'.value.probabilities x'.withOnes = .ok values ↔
          fitted.value.probabilities x' = .ok values) ∧
        ∀ labels, fitted'.value.predict x'.withOnes = .ok labels ↔
          fitted.value.predict x' = .ok labels := by
  refine ⟨?_, ?_⟩
  · intro α _ _ model x y
    have hfit := model.fit_withOnes x y
    refine ⟨fun fault => ?_, fun fitted h => ?_⟩
    · rw [hfit]
      cases (model.set (.intercept true)).fit x y with
      | error fault' => exact ⟨fun h => congrArg Except.error (Except.error.inj h),
          fun h => congrArg Except.error (Except.error.inj h)⟩
      | ok fitted => exact ⟨fun h => by injection h, fun h => by injection h⟩
    · obtain ⟨run, -, hvalue⟩ := value_of_fit h
      obtain ⟨w, b, hkeep, -⟩ := (model.set (.intercept true)).exists_keep_eq run.value
      have hflag : fitted.value.settings.intercept = true := by rw [hvalue, hkeep]; rfl
      refine ⟨augmented <$> fitted, b, w.toList, ?_, rfl, ?_, ?_, ?_, fun x' y' => ?_⟩
      · rw [hfit, h]
        rfl
      · rw [hvalue, hkeep]
      · rw [hvalue, hkeep]
      · rw [Logged.value_map, hvalue, hkeep]
        rfl
      · exact ⟨errorRate_augmented hflag x' y', score_augmented hflag x' y',
          objectiveValue_augmented hflag x' y'⟩
  · intro _ model x y fitted fitted' h h' x'
    rw [fit_withOnes, h] at h'
    obtain rfl := Except.ok.inj h'
    exact ⟨fun values => probabilities_augmented, fun labels => predict_augmented⟩

end RidgeLogistic
