import RidgeLogistic.Proofs.Fitted

/-!
# Evaluating a model

A model is evaluated on data that it was not made for, and what it holds need not come from a
fit. It may have been assigned, and the settings may have changed since. This file says when an
evaluation is refused, for what, and what it has otherwise, for any model at all
(`Estimator.evaluation_total`).

Scoring builds a design of the data and a vector for it, and both checks are made of these. With an
intercept each of the two is one longer than what it is built from, so that they fit together just
where the data and the coefficients do (`Settings.width_design_eq_iff`). That is why the settings
never decide whether an evaluation succeeds. The height is that of the data, and the checks of the
design find what those of the data would.

A rate is a number of rows over that of all. That it is between zero and one takes an order that
numbers of rows and their quotients respect, which `LawfulOrder` has the laws of.
-/

namespace RidgeLogistic

/-- An arithmetic that respects the order of the numbers that it computes with, be it exact or
rounded to the nearest. Of two infinities there is no quotient, so that a divisor has to be
finite. -/
class LawfulOrder (α : Type) [Scalar α] : Prop where
  natCast_zero : ((0 : Nat) : α) = 0
  natCast_mono : ∀ {m n : Nat}, m ≤ n → (m : α) ≤ (n : α)
  natCast_pos : ∀ {n : Nat}, 0 < n → (0 : α) < (n : α)
  quotient_nonneg : ∀ {a b : α}, 0 ≤ a → 0 < b → Scalar.isFinite b = true → 0 ≤ a / b
  quotient_le_one : ∀ {a b : α}, a ≤ b → 0 < b → Scalar.isFinite b = true → a / b ≤ 1
  one_sub_nonneg : ∀ {a : α}, a ≤ 1 → 0 ≤ 1 - a
  one_sub_le_one : ∀ {a : α}, 0 ≤ a → 1 - a ≤ 1

instance LawfulOrder.real : LawfulOrder ℝ where
  natCast_zero := Nat.cast_zero
  natCast_mono := fun h => Nat.cast_le.2 h
  natCast_pos := fun h => Nat.cast_pos.2 h
  quotient_nonneg := fun ha hb _ => div_nonneg ha hb.le
  quotient_le_one := fun hab hb _ => (div_le_one hb).2 hab
  one_sub_nonneg := fun h => sub_nonneg.2 h
  one_sub_le_one := fun h => sub_le_self _ h

variable {α : Type} [Scalar α]

/-! ## Shapes -/

omit [Scalar α] in
theorem Table.point_of_width_ne {x : Table α} {v : List α} (h : x.width ≠ v.length)
    (operand : Operand) :
    x.point operand v = .error (.dimension (.width x.width operand v.length)) := by
  rw [point]
  split
  · next w hw =>
      rw [Vec.ofList?_eq_some_iff.1 hw, w.length_toList] at h
      exact absurd rfl h
  · rfl

theorem Settings.width_design_eq_iff (settings : Settings α) (x : Table α) (b : α) (c : List α) :
    (settings.design x).width = (if settings.intercept then b :: c else c).length ↔
      x.width = c.length := by
  rw [width_design]
  cases settings.intercept with
  | false => rfl
  | true => exact Nat.add_right_cancel_iff

/-- Data is never refused for a model that was not fitted. -/
theorem Problem.ofData_ne_notFitted (x : Table α) (y : List α) :
    ofData x y ≠ .error .notFitted := by
  rw [ofData]
  split
  · simp
  · split
    · simp
    · split
      · next fault hfault =>
          obtain ⟨index, v, -, rfl⟩ := Label.readSigns_eq_error_iff.1 hfault
          simp
      · simp

/-! ## Rates -/

section

variable {x : Table α} {y β : List α}

theorem misclassification_of_ofData_eq_error {fault : Error α}
    (h : Problem.ofData x y = .error fault) : misclassification x y β = .error fault := by
  rw [misclassification, h]
  rfl

theorem misclassification_of_width_ne {p : Problem α x.width} (hp : Problem.ofData x y = .ok p)
    (h : x.width ≠ β.length) :
    misclassification x y β = .error (.dimension (.width x.width .beta β.length)) := by
  rw [misclassification, hp, Table.point_of_width_ne h]
  rfl

/-- A rate is a number of rows over that of all. -/
theorem exists_misclassification_eq {p : Problem α x.width} (hp : Problem.ofData x y = .ok p)
    (h : x.width = β.length) :
    ∃ wrong ≤ x.height, misclassification x y β = .ok ((wrong : α) / (x.height : α)) := by
  have hcount := misclassification_eq hp ⟨β, h.symm⟩
  rw [Problem.misclassification, Problem.size_of_ofData hp] at hcount
  refine ⟨_, ?_, hcount⟩
  rw [← Problem.size_of_ofData hp]
  exact List.countP_le_length

end

namespace LawfulOrder

variable [LawfulOrder α] {m n : Nat}

theorem ratio_nonneg (hn : 0 < n) (hfinite : Scalar.isFinite (n : α) = true) :
    (0 : α) ≤ (m : α) / (n : α) := by
  have hm : (0 : α) ≤ (m : α) := by
    rw [← natCast_zero]
    exact natCast_mono m.zero_le
  exact quotient_nonneg hm (natCast_pos hn) hfinite

theorem ratio_le_one (h : m ≤ n) (hn : 0 < n) (hfinite : Scalar.isFinite (n : α) = true) :
    (m : α) / (n : α) ≤ 1 :=
  quotient_le_one (natCast_mono h) (natCast_pos hn) hfinite

end LawfulOrder

/-! ## Evaluations -/

namespace Estimator

variable {model : Estimator α} {c : List α} {x : Table α} {y : List α}

theorem score_of_errorRate_eq_ok {rate : α} (h : model.errorRate x y = .ok rate) :
    model.score x y = .ok (1 - rate) := by
  rw [score, h]
  rfl

theorem exists_score_iff :
    (∃ value, model.score x y = .ok value) ↔ ∃ rate, model.errorRate x y = .ok rate := by
  constructor
  · rintro ⟨value, h⟩
    obtain ⟨rate, hrate, -⟩ := exists_of_bind_eq_ok h
    exact ⟨rate, hrate⟩
  · rintro ⟨rate, hrate⟩
    exact ⟨1 - rate, score_of_errorRate_eq_ok hrate⟩

theorem score_eq_error_iff {fault : Error α} :
    model.score x y = .error fault ↔ model.errorRate x y = .error fault := by
  rw [score]
  cases model.errorRate x y <;> simp [bind, Except.bind, pure, Except.pure]

theorem predict_eq_error_iff {fault : Error α} :
    model.predict x = .error fault ↔ model.probabilities x = .error fault := by
  rw [predict]
  cases model.probabilities x <;> simp [bind, Except.bind, pure, Except.pure]

theorem probabilities_of_width_ne (hc : model.coefficients = some c) (h : x.width ≠ c.length) :
    model.probabilities x = .error (.dimension (.width x.width .coefficients c.length)) := by
  rw [probabilities, hc]
  show (x.point .coefficients c >>= fun β => _) = _
  rw [Table.point_of_width_ne h]
  rfl

theorem errorRate_of_ofData_eq_error (hc : model.coefficients = some c) {fault : Error α}
    (h : Problem.ofData x y = .error fault) : model.errorRate x y = .error fault := by
  rw [errorRate_eq hc]
  refine misclassification_of_ofData_eq_error ?_
  exact (Problem.ofData_eq_error_iff_of_height (model.settings.height_design x)).2 h

/-- The rate of a model that fits the data, whatever the settings are. -/
theorem exists_errorRate_eq (hc : model.coefficients = some c) {p : Problem α x.width}
    (hp : Problem.ofData x y = .ok p) (h : x.width = c.length) :
    ∃ wrong ≤ x.height, model.errorRate x y = .ok ((wrong : α) / (x.height : α)) := by
  obtain ⟨q, hq⟩ := model.settings.exists_ofData_design_iff.2 ⟨p, hp⟩
  rw [errorRate_eq hc, ← model.settings.height_design x]
  exact exists_misclassification_eq hq ((model.settings.width_design_eq_iff x _ c).2 h)

theorem errorRate_of_width_ne (hc : model.coefficients = some c) {p : Problem α x.width}
    (hp : Problem.ofData x y = .ok p) (h : x.width ≠ c.length) :
    model.errorRate x y = .error (.dimension (.width (model.settings.design x).width .beta
      (if model.settings.intercept then model.intercept.getD 0 :: c else c).length)) := by
  obtain ⟨q, hq⟩ := model.settings.exists_ofData_design_iff.2 ⟨p, hp⟩
  rw [errorRate_eq hc]
  exact misclassification_of_width_ne hq fun hwidth =>
    h ((model.settings.width_design_eq_iff x _ c).1 hwidth)

theorem probabilities_eq_notFitted_iff :
    model.probabilities x = .error .notFitted ↔ model.coefficients = none := by
  cases hc : model.coefficients with
  | none => simp [probabilities, hc]
  | some c =>
      refine iff_of_false (fun h => ?_) (by simp)
      by_cases hwidth : x.width = c.length
      · have hw : model.coefficients = some (⟨c, hwidth.symm⟩ : Vec α x.width).toList := hc
        rw [probabilities_eq hw] at h
        injection h
      · rw [probabilities_of_width_ne hc hwidth] at h
        injection h with h
        injection h

theorem errorRate_eq_notFitted_iff :
    model.errorRate x y = .error .notFitted ↔ model.coefficients = none := by
  cases hc : model.coefficients with
  | none => simp [errorRate, onDesign, hc, bind, Except.bind]
  | some c =>
      refine iff_of_false (fun h => ?_) (by simp)
      cases hp : Problem.ofData x y with
      | error fault =>
          rw [errorRate_of_ofData_eq_error hc hp] at h
          obtain rfl := Except.error.inj h
          exact Problem.ofData_ne_notFitted x y hp
      | ok p =>
          by_cases hwidth : x.width = c.length
          · obtain ⟨wrong, -, hrate⟩ := exists_errorRate_eq hc hp hwidth
            rw [hrate] at h
            injection h
          · rw [errorRate_of_width_ne hc hp hwidth] at h
            injection h with h
            injection h

/-- A model scores data that poses a problem and has the width of the coefficients, and no
other. -/
theorem exists_errorRate_iff :
    (∃ rate, model.errorRate x y = .ok rate) ↔
      ∃ c, model.coefficients = some c ∧ x.width = c.length ∧
        ∃ p, Problem.ofData x y = .ok p := by
  constructor
  · rintro ⟨rate, h⟩
    cases hc : model.coefficients with
    | none =>
        rw [errorRate_eq_notFitted_iff.2 hc] at h
        injection h
    | some c =>
        cases hp : Problem.ofData x y with
        | error fault =>
            rw [errorRate_of_ofData_eq_error hc hp] at h
            injection h
        | ok p =>
            refine ⟨c, rfl, by_contra fun hwidth => ?_, p, rfl⟩
            rw [errorRate_of_width_ne hc hp hwidth] at h
            injection h
  · rintro ⟨c, hc, hwidth, p, hp⟩
    obtain ⟨wrong, -, hrate⟩ := exists_errorRate_eq hc hp hwidth
    exact ⟨_, hrate⟩

/-- Any model answers any data by its shape. What it is refused for comes in this order: that it
has no coefficients, then, where it is scored, what the data is refused for as a problem, and last
that the data has not the width of the coefficients. Otherwise there is a probability and a label
for each row, if there are any rows, and the score is one minus a rate of rows, both between zero
and one. No choice of settings makes or breaks an evaluation. -/
theorem evaluation_total (model : Estimator α) (x : Table α) (y : List α) :
    ((model.probabilities x = .error .notFitted ↔ model.coefficients = none) ∧
      (model.predict x = .error .notFitted ↔ model.coefficients = none) ∧
      (model.errorRate x y = .error .notFitted ↔ model.coefficients = none) ∧
      (model.score x y = .error .notFitted ↔ model.coefficients = none)) ∧
    (∀ c, model.coefficients = some c →
      (x.width ≠ c.length →
        let fault : Error α := .dimension (.width x.width .coefficients c.length)
        model.probabilities x = .error fault ∧ model.predict x = .error fault) ∧
      (x.width = c.length → ∃ values labels,
        model.probabilities x = .ok values ∧ values.length = x.height ∧
        model.predict x = .ok labels ∧ labels.length = x.height) ∧
      (∀ fault, Problem.ofData x y = .error fault →
        model.errorRate x y = .error fault ∧ model.score x y = .error fault) ∧
      ∀ p, Problem.ofData x y = .ok p →
        (x.width ≠ c.length →
          let β := if model.settings.intercept then model.intercept.getD 0 :: c else c
          let fault : Error α :=
            .dimension (.width (model.settings.design x).width .beta β.length)
          model.errorRate x y = .error fault ∧ model.score x y = .error fault) ∧
        (x.width = c.length → ∃ wrong ≤ x.height,
          let rate := (wrong : α) / (x.height : α)
          model.errorRate x y = .ok rate ∧ model.score x y = .ok (1 - rate) ∧
          ∀ [LawfulOrder α], Scalar.isFinite (x.height : α) = true →
            0 ≤ rate ∧ rate ≤ 1 ∧ 0 ≤ 1 - rate ∧ 1 - rate ≤ 1)) ∧
    ∀ setting,
      (model.set setting).probabilities x = model.probabilities x ∧
      (model.set setting).predict x = model.predict x ∧
      ((∃ rate, (model.set setting).errorRate x y = .ok rate) ↔
        ∃ rate, model.errorRate x y = .ok rate) ∧
      ((∃ value, (model.set setting).score x y = .ok value) ↔
        ∃ value, model.score x y = .ok value) := by
  refine ⟨⟨probabilities_eq_notFitted_iff,
    predict_eq_error_iff.trans probabilities_eq_notFitted_iff, errorRate_eq_notFitted_iff,
    score_eq_error_iff.trans errorRate_eq_notFitted_iff⟩, ?_, ?_⟩
  · intro c hc
    refine ⟨fun hwidth => ?_, fun hwidth => ?_, fun fault hfault => ?_, fun p hp => ⟨?_, ?_⟩⟩
    · have hvalues := probabilities_of_width_ne hc hwidth
      exact ⟨hvalues, predict_eq_error_iff.2 hvalues⟩
    · have hw : model.coefficients = some (⟨c, hwidth.symm⟩ : Vec α x.width).toList := hc
      exact ⟨_, _, probabilities_eq hw, List.length_map .., predict_eq hw, List.length_map ..⟩
    · have hrate := errorRate_of_ofData_eq_error hc hfault
      exact ⟨hrate, score_eq_error_iff.2 hrate⟩
    · intro hwidth
      have hrate := errorRate_of_width_ne hc hp hwidth
      exact ⟨hrate, score_eq_error_iff.2 hrate⟩
    · intro hwidth
      obtain ⟨wrong, hwrong, hrate⟩ := exists_errorRate_eq hc hp hwidth
      refine ⟨wrong, hwrong, hrate, score_of_errorRate_eq_ok hrate, fun hfinite => ?_⟩
      have hheight : 0 < x.height := by
        rw [← Problem.size_of_ofData hp]
        exact p.size_pos
      have hnonneg := LawfulOrder.ratio_nonneg (m := wrong) hheight hfinite
      have hle := LawfulOrder.ratio_le_one hwrong hheight hfinite
      exact ⟨hnonneg, hle, LawfulOrder.one_sub_nonneg hle, LawfulOrder.one_sub_le_one hnonneg⟩
  · intro setting
    have hrate : (∃ rate, (model.set setting).errorRate x y = .ok rate) ↔
        ∃ rate, model.errorRate x y = .ok rate := by
      rw [exists_errorRate_iff, exists_errorRate_iff]
      rfl
    exact ⟨rfl, rfl, hrate, exists_score_iff.trans (hrate.trans exists_score_iff.symm)⟩

/-- A model that was assigned a coefficient. It answers a table without rows, and whether there is
to be an intercept or not, it scores data of one column and is refused data of two. -/
theorem evaluation_total_assigned :
    let model : Estimator ℝ := { ofSettings .standard with coefficients := some [2] }
    let wide : Table ℝ := ⟨2, [0]⟩
    (∃ values, model.probabilities ⟨1, []⟩ = .ok values ∧ values.length = 0) ∧
    (∃ rate, model.errorRate ⟨1, [0]⟩ [1] = .ok rate ∧ 0 ≤ rate ∧ rate ≤ 1) ∧
    (∃ rate, (model.set (.intercept true)).errorRate ⟨1, [0]⟩ [1] = .ok rate) ∧
    model.errorRate wide [1] = .error (.dimension (.width 2 .beta 1)) ∧
    (model.set (.intercept true)).errorRate wide [1] = .error (.dimension (.width 3 .beta 2)) := by
  intro model wide
  let p : Problem ℝ 1 := ⟨[⟨0, .positive⟩], List.cons_ne_nil _ _⟩
  let q : Problem ℝ 2 := ⟨[⟨0, .positive⟩], List.cons_ne_nil _ _⟩
  have hp : Problem.ofData ⟨1, [0]⟩ [1] = .ok p := p.ofData_table
  have hq : Problem.ofData wide [1] = .ok q := q.ofData_table
  have hwide : wide.width ≠ [(2 : ℝ)].length := by decide
  obtain ⟨-, hempty, -⟩ := evaluation_total model ⟨1, []⟩ []
  obtain ⟨values, -, hvalues, hlength, -⟩ := (hempty _ rfl).2.1 rfl
  obtain ⟨-, hnarrow, hsettings⟩ := evaluation_total model ⟨1, [0]⟩ [1]
  obtain ⟨wrong, -, hrate, -, hbounds⟩ := ((hnarrow _ rfl).2.2.2 p hp).2 rfl
  obtain ⟨hnonneg, hle, -⟩ := hbounds rfl
  refine ⟨⟨values, hvalues, hlength⟩, ⟨_, hrate, hnonneg, hle⟩,
    (hsettings (.intercept true)).2.2.1.2 ⟨_, hrate⟩, ?_, ?_⟩
  · exact (((evaluation_total model wide [1]).2.1 _ rfl).2.2.2 q hq).1 hwide |>.1
  · exact (((evaluation_total (model.set (.intercept true)) wide [1]).2.1 _ rfl).2.2.2 q hq).1
      hwide |>.1

end Estimator

end RidgeLogistic
