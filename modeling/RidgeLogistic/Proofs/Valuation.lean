import RidgeLogistic.Proofs.Convexity
import RidgeLogistic.Proofs.Provenance
import RidgeLogistic.Proofs.Fitted

/-!
# The objective of a model

A model that has coefficients puts a value on data: the objective of its coefficients on the
design that its settings ask for. It judges the data and the width, as the checked objective
does, but takes the penalty as it is set. With one that would not be accepted the checked
objective is refused on all data, while a model has a value wherever it had one before.

A fit accepts its penalty, and no action but the choice of another one changes it. So the two
agree from a fit on until a penalty is chosen that a fit would refuse, and again after the
choice of one that it would not. That the others are told apart takes data that a model puts
a value on: where it has coefficients, a fit has shown that there are labels to give
(`Estimator.valuedAsObjective_after`).
-/

namespace RidgeLogistic

variable {α : Type} [Scalar α]

namespace Estimator

/-- The values of a model are those of the checked objective, of its coefficients on its design
with its penalty. -/
def ValuedAsObjective (model : Estimator α) : Prop :=
  ∀ x y value, model.objectiveValue x y = .ok value ↔
    ∃ design β, model.onDesign x = .ok (design, β) ∧
      objective design y β model.settings.penalty = .ok value

variable {model : Estimator α}

theorem design_of_onDesign {x design : Table α} {β : List α}
    (h : model.onDesign x = .ok (design, β)) : design = model.settings.design x := by
  cases hc : model.coefficients with
  | none => rw [onDesign, hc] at h; injection h
  | some c =>
      rw [onDesign_eq hc] at h
      exact (congrArg Prod.fst (Except.ok.inj h)).symm

theorem exists_ofData_of_onDesign {x design : Table α} {y β : List α}
    (h : model.onDesign x = .ok (design, β)) {p : Problem α design.width}
    (hp : Problem.ofData design y = .ok p) : ∃ q, Problem.ofData x y = .ok q := by
  obtain rfl := design_of_onDesign h
  exact model.settings.exists_ofData_design_iff.1 ⟨p, hp⟩

theorem valuedAsObjective_of_checkPenalty
    (hpen : checkPenalty model.settings.penalty = .ok ()) : model.ValuedAsObjective := by
  intro x y value
  constructor
  · intro h
    obtain ⟨_, _, hrest⟩ := exists_of_bind_eq_ok h
    obtain ⟨⟨design, β⟩, hdesign, -⟩ := exists_of_bind_eq_ok hrest
    obtain ⟨-, hvalue⟩ := (objectiveValue_eq_ok_iff hdesign).1 h
    exact ⟨design, β, hdesign, objective_eq_ok_iff.2 ⟨hpen, hvalue⟩⟩
  · rintro ⟨design, β, hdesign, h⟩
    obtain ⟨-, p, w, hp, hw, hvalue⟩ := objective_eq_ok_iff.1 h
    exact (objectiveValue_eq_ok_iff hdesign).2
      ⟨exists_ofData_of_onDesign hdesign hp, p, w, hp, hw, hvalue⟩

theorem exists_objectiveValue_iff {x : Table α} {y : List α} :
    (∃ value, model.objectiveValue x y = .ok value) ↔
      ∃ design β, model.onDesign x = .ok (design, β) ∧
        ∃ (p : Problem α design.width) (w : Vec α design.width),
          Problem.ofData design y = .ok p ∧ w.toList = β := by
  constructor
  · rintro ⟨value, h⟩
    obtain ⟨_, _, hrest⟩ := exists_of_bind_eq_ok h
    obtain ⟨⟨design, β⟩, hdesign, -⟩ := exists_of_bind_eq_ok hrest
    obtain ⟨-, p, w, hp, hw, -⟩ := (objectiveValue_eq_ok_iff hdesign).1 h
    exact ⟨design, β, hdesign, p, w, hp, hw⟩
  · rintro ⟨design, β, hdesign, p, w, hp, hw⟩
    exact ⟨_, (objectiveValue_eq_ok_iff hdesign).2
      ⟨exists_ofData_of_onDesign hdesign hp, p, w, hp, hw, rfl⟩⟩

/-- With labels that pose a problem at all, there is a table on which the model has a value. -/
theorem exists_objectiveValue_of_ofData {x : Table α} {y : List α} {p : Problem α x.width}
    (hp : Problem.ofData x y = .ok p) (hfitted : model.coefficients ≠ none) :
    ∃ x' value, model.objectiveValue x' y = .ok value := by
  obtain ⟨c, hc⟩ := Option.ne_none_iff_exists'.1 hfitted
  -- As many rows as there are labels, and of the width that the model has.
  let x' : Table α := ⟨c.length, x.rows.map fun _ => ⟨c, rfl⟩⟩
  have hheight : x'.height = x.height := List.length_map _
  obtain ⟨q, hq⟩ := model.settings.exists_ofData_design_iff.2
    ((Problem.exists_ofData_iff_of_height hheight).2 ⟨p, hp⟩)
  obtain ⟨w, hw⟩ := exists_onDesign (x := x') (w := ⟨c, rfl⟩) hc
  obtain ⟨value, hvalue⟩ := exists_objectiveValue_iff.2 ⟨_, _, hw, q, w, hq, rfl⟩
  exact ⟨x', value, hvalue⟩

/-- The penalty alone decides, where there are labels that pose a problem. -/
theorem valuedAsObjective_iff {x : Table α} {y : List α} {p : Problem α x.width}
    (hp : Problem.ofData x y = .ok p) (hfitted : model.coefficients ≠ none) :
    model.ValuedAsObjective ↔ checkPenalty model.settings.penalty = .ok () := by
  refine ⟨fun h => ?_, valuedAsObjective_of_checkPenalty⟩
  obtain ⟨x', value, hvalue⟩ := exists_objectiveValue_of_ofData hp hfitted
  obtain ⟨design, β, -, hobjective⟩ := (h x' y value).1 hvalue
  exact (objective_eq_ok_iff.1 hobjective).1

theorem valuedAsObjective_of_not_fitted (h : model.coefficients = none) :
    model.ValuedAsObjective := by
  have hdesign : ∀ x, model.onDesign x = .error .notFitted := by
    intro x
    rw [onDesign, h]
  intro x y value
  refine iff_of_false (fun hvalue => ?_) ?_
  · obtain ⟨design, β, hon, -⟩ := exists_objectiveValue_iff.1 ⟨value, hvalue⟩
    rw [hdesign] at hon
    injection hon
  · rintro ⟨design, β, hon, -⟩
    rw [hdesign] at hon
    injection hon

/-- Whether there is a value does not depend on the penalty. -/
theorem exists_objectiveValue_set_penalty (penalty : α) {x : Table α} {y : List α} :
    (∃ value, (model.set (.penalty penalty)).objectiveValue x y = .ok value) ↔
      ∃ value, model.objectiveValue x y = .ok value := by
  have hdesign : (model.set (.penalty penalty)).onDesign x = model.onDesign x := rfl
  rw [exists_objectiveValue_iff, exists_objectiveValue_iff, hdesign]

variable [Eigensolver α]

theorem checkPenalty_of_fit {x : Table α} {y : List α} {fitted : Logged α (Estimator α)}
    (h : model.fit x y = .ok fitted) : checkPenalty fitted.value.settings.penalty = .ok () := by
  obtain ⟨-, step, -, hcheck⟩ := exists_fit_iff.1 ⟨fitted, h⟩
  rw [settings_of_fit h]
  exact Solver.checkPenalty_params ⟨model.settings.params step, hcheck⟩

/-- Coefficients come from a fit, and the data of that poses a problem. -/
theorem exists_ofData_after {history : List (Action α)}
    (h : (after history).coefficients ≠ none) :
    ∃ x y, ∃ p : Problem α x.width, Problem.ofData x y = .ok p := by
  rcases foldl_perform_cases (ofSettings .standard) history with
    ⟨-, hstate⟩ | ⟨before, x, y, rest, fitted, -, hfit, -, -⟩
  · rw [after, hstate] at h
    exact absurd rfl h
  · obtain ⟨hdata, -⟩ := exists_fit_iff.1 ⟨fitted, hfit⟩
    exact ⟨x, y, hdata⟩

/-- In every state that a model reaches and has coefficients in, its values are those of the
checked objective if and only if its penalty is one that would be accepted. They are after
a fit, whatever follows it, if the last penalty chosen since then, where one was, is accepted.
Choosing a penalty makes no value come or go. -/
theorem valuedAsObjective_after (history : List (Action α)) :
    ((after history).ValuedAsObjective ↔
      ((after history).coefficients ≠ none →
        checkPenalty (after history).settings.penalty = .ok ())) ∧
    (∀ x y fitted later, (after history).fit x y = .ok fitted →
      (∀ penalty, Action.lastChoice Setting.penalty? later = some penalty →
        checkPenalty penalty = .ok ()) →
      (later.foldl perform fitted.value).ValuedAsObjective) ∧
    ∀ penalty x y,
      (∃ value, (after (history ++ [.set (.penalty penalty)])).objectiveValue x y = .ok value) ↔
        ∃ value, (after history).objectiveValue x y = .ok value := by
  refine ⟨⟨fun h hfitted => ?_, fun h => ?_⟩, fun x y fitted later hfit hlater => ?_,
    fun penalty x y => ?_⟩
  · obtain ⟨x, y, p, hp⟩ := exists_ofData_after hfitted
    exact (valuedAsObjective_iff hp hfitted).1 h
  · by_cases hfitted : (after history).coefficients = none
    · exact valuedAsObjective_of_not_fitted hfitted
    · exact valuedAsObjective_of_checkPenalty (h hfitted)
  · refine valuedAsObjective_of_checkPenalty ?_
    have hpenalty : (later.foldl perform fitted.value).settings.penalty =
        (Action.lastChoice Setting.penalty? later).getD fitted.value.settings.penalty := by
      rw [settings_foldl_perform]
      rfl
    rw [hpenalty]
    cases hlast : Action.lastChoice Setting.penalty? later with
    | none => exact checkPenalty_of_fit hfit
    | some penalty => exact hlater penalty hlast
  · rw [after_concat]
    exact exists_objectiveValue_set_penalty penalty

end Estimator

/-! ## A penalty that no fit accepts -/

/-- A model is fitted to one sample, and its penalty set to a negative one. -/
noncomputable def Action.rewarded : List (Action ℝ) :=
  [.set (.step 1), .set (.iterations 0), .fit ⟨1, [Vec.replicate 1 1]⟩ [1], .set (.penalty (-1))]

theorem Estimator.after_rewarded :
    (after Action.rewarded).coefficients = some (0 : Vec ℝ 1).toList ∧
    (after Action.rewarded).settings.penalty = -1 ∧
    (after Action.rewarded).settings.intercept = false := by
  let x : Table ℝ := ⟨1, [Vec.replicate 1 1]⟩
  let fresh : Estimator ℝ := after [.set (.step 1), .set (.iterations 0)]
  let p : Problem ℝ 1 := ⟨[⟨Vec.replicate 1 1, .positive⟩], List.cons_ne_nil _ _⟩
  let c : Course ℝ 1 := fresh.settings.course p 1
  have hp : Problem.ofData x [1] = .ok p := p.ofData_table
  have hsound : c.params.Sound :=
    Params.sound_standard (show (0 : ℝ) ≤ 0.1 by norm_num) zero_lt_one 0
  obtain ⟨log, hrun⟩ := Settings.run_eq hp (rfl : fresh.settings.firstStep x = .ok 1)
    (Params.check_eq_ok_iff.2 hsound)
  obtain ⟨log', hfit⟩ : ∃ log, fresh.fit x [1] = .ok ⟨fresh.keep (c.paths 0).estimates, log⟩ :=
    fit_eq hp hrun
  have hafter : after Action.rewarded =
      (fresh.keep (c.paths 0).estimates).set (.penalty (-1)) :=
    congrArg (·.set (.penalty (-1))) (perform_fit_of_ok hfit)
  rw [hafter]
  exact ⟨rfl, rfl, rfl⟩

/-- The model has a value, where the checked objective is refused for the penalty. -/
theorem not_valuedAsObjective_after :
    let model := Estimator.after Action.rewarded
    let x : Table ℝ := ⟨1, [Vec.replicate 1 1]⟩
    model.coefficients = some [0] ∧ model.onDesign x = .ok (x, [0]) ∧
    model.objectiveValue x [1] = .ok (Real.log 2) ∧
    objective x [1] [0] model.settings.penalty = .error (.hyperparameter (.penalty (-1))) ∧
    ¬model.ValuedAsObjective := by
  intro model x
  obtain ⟨hc, hpen, hflag⟩ := Estimator.after_rewarded
  let p : Problem ℝ 1 := ⟨[⟨Vec.replicate 1 1, .positive⟩], List.cons_ne_nil _ _⟩
  have hp : Problem.ofData x [1] = .ok p := p.ofData_table
  have hrefused : checkPenalty (-1 : ℝ) = .error (.hyperparameter (.penalty (-1))) :=
    if_neg fun h => (show ¬(0 : ℝ) ≤ -1 by norm_num) h.1
  have hdesign : model.onDesign x = .ok (x, (0 : Vec ℝ 1).toList) := by
    rw [Estimator.onDesign, hc, hflag]
    rfl
  have hvalue : model.objectiveValue x [1] = .ok (Real.log 2) := by
    refine (Estimator.objectiveValue_eq_ok_iff hdesign).2 ⟨⟨p, hp⟩, p, 0, hp, rfl, ?_⟩
    rw [Problem.objective_eq_sum]
    simp [p, Problem.size, Sample.margin_eq, logisticLoss_eq]
    norm_num
  refine ⟨hc, hdesign, hvalue, ?_, fun h => ?_⟩
  · rw [hpen, objective, hp]
    show (x.point .beta (0 : Vec ℝ 1).toList >>= fun β => _) = _
    rw [Table.point_toList, hrefused]
    rfl
  · have hfitted : model.coefficients ≠ none := by
      rw [hc]
      exact Option.some_ne_none _
    have hok := (Estimator.valuedAsObjective_iff hp hfitted).1 h
    rw [hpen, hrefused] at hok
    injection hok

end RidgeLogistic
