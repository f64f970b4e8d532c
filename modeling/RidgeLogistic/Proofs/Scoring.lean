import RidgeLogistic.Proofs.Fitted
import RidgeLogistic.Proofs.SufficientDecrease

/-!
# Scoring and predicting

A model predicts with the intercept that its last fit left. It scores on the design of its
present settings, and that has no place for an intercept once it is turned off; the two then
decide by different hyperplanes. Over exact arithmetic this file says which models score
what they predict (`Estimator.scoredAsPredicted_iff`): all but those that hold an intercept
which their settings ignore and which shows in some decision.

A fit never leaves such an intercept, and no other setting than that of the intercept
touches it. So what is scored is what is predicted until an intercept that was fitted is
turned off, in whatever order settings are chosen and fits made or refused.
-/

namespace RidgeLogistic

/-! ## What scoring counts -/

section

variable {α : Type} [Scalar α]

/-- What scoring adds to the products of the rows with the coefficients. -/
def Estimator.offset (model : Estimator α) : α :=
  if model.settings.intercept then model.intercept.getD 0 else 0

end

theorem Label.map_ofScore_cons {d : Nat} (rows : List (Vec ℝ d)) (b : ℝ) (w : Vec ℝ d) :
    ((rows.map (Vec.cons 1)).map fun row => ofScore (row.dot (Vec.cons b w))) =
      rows.map fun row => ofScore (row.dot w + b) := by
  rw [List.map_map]
  refine List.map_congr_left fun row _ => ?_
  rw [Function.comp_apply, Vec.cons_dot_cons, one_mul, add_comm]

namespace Estimator

theorem errorRate_spec {model : Estimator ℝ} {x : Table ℝ} {y : List ℝ} {rate : ℝ}
    (h : model.errorRate x y = .ok rate) :
    ∃ (w : Vec ℝ x.width) (labels : List Label),
      model.coefficients = some w.toList ∧ labels.map Label.value = y ∧
      x.rows.length = labels.length ∧ 0 < x.height ∧
      rate = Label.disagreements
        (x.rows.map fun row => .ofScore (row.dot w + model.offset)) labels / x.height := by
  rw [errorRate, onDesign] at h
  cases hc : model.coefficients with
  | none => rw [hc] at h; injection h
  | some c =>
      rw [hc] at h
      cases hflag : model.settings.intercept with
      | false =>
          rw [hflag] at h
          obtain ⟨p, w, hp, rfl, rfl⟩ := misclassification_spec h
          obtain ⟨labels, hlabels, hlength, hcount⟩ := Problem.misclassification_of_ofData hp
          refine ⟨w, labels, rfl, Label.map_value_of_readFrom hlabels, hlength, ?_, ?_⟩
          · rw [← Problem.size_of_ofData hp]
            exact p.size_pos
          · have hoffset : model.offset = 0 := by rw [offset, hflag]; rfl
            rw [hcount, hoffset]
            simp only [add_zero]
      | true =>
          rw [hflag] at h
          obtain ⟨p, w', hp, hw', rfl⟩ := misclassification_spec h
          obtain ⟨w, rfl, rfl⟩ := Vec.exists_eq_cons hw'
          obtain ⟨labels, hlabels, hlength, hcount⟩ := Problem.misclassification_of_ofData hp
          refine ⟨w, labels, rfl, Label.map_value_of_readFrom hlabels, ?_, ?_, ?_⟩
          · exact x.height_withOnes.symm.trans hlength
          · rw [← x.height_withOnes, ← Problem.size_of_ofData hp]
            exact p.size_pos
          · have hoffset : model.offset = model.intercept.getD 0 := by rw [offset, hflag]; rfl
            refine (hcount _).trans ?_
            rw [hoffset, ← Label.map_ofScore_cons, x.height_withOnes]
            rfl

/-- Scoring counts predictions: where there is an error rate there are predictions, the rate
is the fraction of those that differ from the labels, and the score that of the others. -/
def ScoredAsPredicted (model : Estimator ℝ) : Prop :=
  ∀ (x : Table ℝ) (y : List ℝ) (rate : ℝ), model.errorRate x y = .ok rate →
    ∃ predicted labels, model.predict x = .ok predicted ∧ labels.map Label.value = y ∧
      predicted.length = x.height ∧ labels.length = x.height ∧
      rate * x.height = Label.disagreements predicted labels ∧
      model.score x y = .ok (Label.agreements predicted labels / x.height)

theorem scoredAsPredicted_of_decisions {model : Estimator ℝ}
    (h : ∀ (d : Nat) (w row : Vec ℝ d), model.coefficients = some w.toList →
      Label.ofScore (row.dot w + model.intercept.getD 0) =
        Label.ofScore (row.dot w + model.offset)) :
    model.ScoredAsPredicted := by
  intro x y rate hrate
  obtain ⟨w, labels, hw, hlabels, hlength, hheight, rfl⟩ := errorRate_spec hrate
  have hpredict := predict_eq hw
  have hsame : (x.rows.map fun row => Label.ofScore (row.dot w + model.intercept.getD 0)) =
      x.rows.map fun row => Label.ofScore (row.dot w + model.offset) :=
    List.map_congr_left fun row _ => h _ w row hw
  rw [hsame] at hpredict
  have hne : (x.height : ℝ) ≠ 0 := Nat.cast_ne_zero.2 hheight.ne'
  refine ⟨_, labels, hpredict, hlabels, List.length_map .., hlength.symm,
    div_mul_cancel₀ _ hne, ?_⟩
  have hsplit := Label.agreements_add_disagreements
    ((List.length_map (fun row => Label.ofScore (row.dot w + model.offset))).trans hlength)
  rw [List.length_map] at hsplit
  rw [score, hrate]
  refine congrArg Except.ok ((one_sub_div hne).trans (congrArg (· / (x.height : ℝ)) ?_))
  rw [Table.height, ← hsplit, Nat.cast_add, add_sub_cancel_right]

theorem errorRate_single {model : Estimator ℝ} (hflag : model.settings.intercept = false)
    {d : Nat} {w : Vec ℝ d} (hw : model.coefficients = some w.toList) (row : Vec ℝ d)
    (label : Label) :
    model.errorRate ⟨d, [row]⟩ [label.value] =
      .ok (Label.disagreements [.ofScore (row.dot w)] [label]) := by
  let p : Problem ℝ d := ⟨[⟨row, label⟩], List.cons_ne_nil _ _⟩
  have hp : Problem.ofData ⟨d, [row]⟩ [label.value] = .ok p := p.ofData_table
  obtain ⟨labels, hlabels, -, hcount⟩ := Problem.misclassification_of_ofData hp
  have hread : Label.readSigns [(label.value : ℝ)] = .ok [label] :=
    Label.readFrom_map_value 0 [label]
  rw [hread] at hlabels
  obtain rfl := Except.ok.inj hlabels
  rw [errorRate, onDesign, hw, hflag]
  refine (misclassification_eq hp w).trans (congrArg Except.ok ((hcount w).trans ?_))
  rw [Table.height, List.length_singleton, Nat.cast_one]
  exact div_one _

theorem not_scoredAsPredicted {model : Estimator ℝ} (hflag : model.settings.intercept = false)
    {d : Nat} {w row : Vec ℝ d} (hw : model.coefficients = some w.toList)
    (hrow : Label.ofScore (row.dot w + model.intercept.getD 0) ≠ Label.ofScore (row.dot w)) :
    ¬model.ScoredAsPredicted := by
  intro h
  obtain ⟨predicted, labels, hpredict, hlabels, -, -, hrate, -⟩ :=
    h _ _ _ (errorRate_single hflag hw row (.ofScore (row.dot w)))
  have hlabels : labels = [.ofScore (row.dot w)] :=
    List.map_injective_iff.2 Label.value_injective hlabels
  have hpredicted : predicted = [.ofScore (row.dot w + model.intercept.getD 0)] :=
    Except.ok.inj (hpredict.symm.trans (predict_eq hw))
  rw [hpredicted, hlabels, Label.disagreements_singleton, Label.disagreements_singleton,
    if_pos rfl, if_neg hrow, Nat.cast_zero, zero_mul] at hrate
  exact zero_ne_one (hrate.trans Nat.cast_one)

theorem exists_decided_differently {d : Nat} {w : Vec ℝ d} {b : ℝ} (hb : b ≠ 0)
    (hw : w = 0 → 0 ≤ b) :
    ∃ row : Vec ℝ d, Label.ofScore (row.dot w + b) ≠ Label.ofScore (row.dot w) := by
  simp only [ne_eq, Label.ofScore_eq_ofScore_iff]
  by_cases hzero : w = 0
  · have hpos : 0 < b := lt_of_le_of_ne (hw hzero) hb.symm
    refine ⟨0, ?_⟩
    rw [Vec.zero_dot, zero_add]
    exact fun h => (h.1 hpos).false
  · -- Half way between the hyperplane of the coefficients and that with the intercept.
    have hsquare := Vec.dot_self_pos hzero
    refine ⟨w * (-b / 2 / w.dot w), ?_⟩
    rw [Vec.mul_dot, div_mul_cancel₀ _ hsquare.ne']
    intro h
    rcases lt_or_gt_of_ne hb with hneg | hpos
    · linarith [h.2 (by linarith)]
    · linarith [h.1 (by linarith)]

/-- When scoring counts predictions: unless an intercept was left that the settings ignore,
and even then where both decide for the negative label throughout. -/
theorem scoredAsPredicted_iff (model : Estimator ℝ) :
    model.ScoredAsPredicted ↔ ∀ c, model.coefficients = some c →
      model.settings.intercept = true ∨ model.intercept.getD 0 = 0 ∨
        (model.intercept.getD 0 < 0 ∧ ∀ v ∈ c, v = 0) := by
  constructor
  · intro h c hc
    let w : Vec ℝ c.length := ⟨c, rfl⟩
    by_contra hbad
    obtain ⟨hflag, hb, hneg⟩ : ¬model.settings.intercept = true ∧
        ¬model.intercept.getD 0 = 0 ∧
          ¬(model.intercept.getD 0 < 0 ∧ ∀ v ∈ w.toList, v = 0) := by
      rwa [not_or, not_or] at hbad
    rw [Vec.forall_mem_toList_eq_zero_iff, not_and'] at hneg
    obtain ⟨row, hrow⟩ := exists_decided_differently hb fun hw => not_lt.1 (hneg hw)
    exact not_scoredAsPredicted (Bool.eq_false_iff.2 hflag) hc hrow h
  · intro h
    refine scoredAsPredicted_of_decisions fun d w row hw => ?_
    rcases h _ hw with hflag | hzero | ⟨hneg, hzero⟩
    · rw [offset, hflag]
      rfl
    · rw [offset, hzero, ite_self]
    · rw [Vec.forall_mem_toList_eq_zero_iff.1 hzero, Vec.dot_zero,
        Label.ofScore_eq_ofScore_iff, offset]
      split
      · rfl
      · exact iff_of_false (by linarith) (by simp)

/-! ## Over histories -/

/-- An intercept was left only where the settings have one. -/
def InterceptKept (model : Estimator ℝ) : Prop :=
  model.settings.intercept = true ∨ model.intercept.getD 0 = 0

theorem InterceptKept.scoredAsPredicted {model : Estimator ℝ} (h : model.InterceptKept) :
    model.ScoredAsPredicted :=
  (scoredAsPredicted_iff model).2 fun _ _ => h.imp_right Or.inl

theorem interceptKept_keep (model : Estimator ℝ) {d : Nat} (path : Trajectory ℝ d) :
    (model.keep path).InterceptKept := by
  rw [keep]
  split
  · next hflag => exact Or.inl hflag
  · exact Or.inr rfl

section

variable [Eigensolver ℝ]

theorem InterceptKept.perform {model : Estimator ℝ} (h : model.InterceptKept)
    {action : Action ℝ} (haction : action ≠ .set (.intercept false)) :
    (model.perform action).InterceptKept := by
  rcases model.perform_cases action with ⟨setting, rfl, heq⟩ | ⟨d, path, heq⟩ | heq
  · rw [heq]
    cases setting with
    | intercept flag =>
        cases flag with
        | true => exact Or.inl rfl
        | false => exact absurd rfl haction
    | scheme => exact h
    | penalty => exact h
    | step => exact h
    | iterations => exact h
    | search => exact h
  · rw [heq]
    exact interceptKept_keep model path
  · rw [heq]
    exact h

theorem InterceptKept.foldl {model : Estimator ℝ} (h : model.InterceptKept)
    {later : List (Action ℝ)} (hlater : .set (.intercept false) ∉ later) :
    (later.foldl Estimator.perform model).InterceptKept := by
  induction later generalizing model with
  | nil => exact h
  | cons action later ih =>
      rw [List.mem_cons, not_or] at hlater
      exact ih (h.perform (Ne.symm hlater.1)) hlater.2

/-- In every state that a model reaches, where there is an error rate there are predictions;
and scoring counts them if and only if the intercept that the model holds is one that its
settings have, or shows in no decision. It counts them from a fit on, as long as the
intercept is not turned off. -/
theorem scoredAsPredicted_after (history : List (Action ℝ)) :
    (∀ (x : Table ℝ) (y : List ℝ) (rate : ℝ), (after history).errorRate x y = .ok rate →
      ∃ predicted, (after history).predict x = .ok predicted) ∧
    ((after history).ScoredAsPredicted ↔ ∀ c, (after history).coefficients = some c →
      (after history).settings.intercept = true ∨ (after history).intercept.getD 0 = 0 ∨
        ((after history).intercept.getD 0 < 0 ∧ ∀ v ∈ c, v = 0)) ∧
    ∀ (x : Table ℝ) (y : List ℝ) (fitted : Logged ℝ (Estimator ℝ)) (later : List (Action ℝ)),
      (after history).fit x y = .ok fitted → .set (.intercept false) ∉ later →
        (later.foldl perform fitted.value).ScoredAsPredicted := by
  refine ⟨?_, scoredAsPredicted_iff _, ?_⟩
  · intro x y rate hrate
    obtain ⟨w, -, hw, -⟩ := errorRate_spec hrate
    exact ⟨_, predict_eq hw⟩
  · intro x y fitted later hfit hlater
    obtain ⟨run, -, hvalue⟩ := value_of_fit hfit
    rw [hvalue]
    exact ((interceptKept_keep _ run.value).foldl hlater).scoredAsPredicted

end

end Estimator

/-! ## An intercept turned off -/

noncomputable def Problem.constant : Problem ℝ 2 where
  samples := [⟨Vec.cons 1 0, .positive⟩]
  samples_ne_nil := List.cons_ne_nil _ _

theorem Problem.gradient_constant_zero (penalty : ℝ) :
    constant.gradient penalty 0 = (Vec.cons 1 0 : Vec ℝ 2) * (-1 / 2 : ℝ) := by
  refine Vec.ext_dot fun v => ?_
  rw [gradient_dot, Vec.mul_dot]
  simp [constant, size, Sample.margin_eq, Label.value, logisticWeight_eq]
  ring

theorem Course.estimate_one_constant (c : Course ℝ 2) (hp : c.problem = .constant)
    (h₀ : c.origin₀ = 0) : c.estimate 1 = Vec.cons ((c.found 0).step / 2) 0 := by
  rw [estimate_succ, origin_zero, h₀, gradientAt, hp, Problem.gradient_constant_zero]
  generalize (c.found 0).step = η
  refine Vec.ext ?_
  show [0 - 1 * (-1 / 2) * η, 0 - 0 * (-1 / 2) * η] = [η / 2, 0]
  rw [one_mul, zero_mul, zero_mul, sub_zero]
  congr 1
  ring

/-- A model with an intercept is fitted to one positive sample at zero, and the intercept is
turned off. -/
noncomputable def Action.turnedOff : List (Action ℝ) :=
  [.set (.intercept true), .set (.step 1), .set (.iterations 1), .fit ⟨1, [0]⟩ [1],
    .set (.intercept false)]

theorem Estimator.after_turnedOff :
    (after Action.turnedOff).settings.intercept = false ∧
    (after Action.turnedOff).coefficients = some (0 : Vec ℝ 1).toList ∧
    0 < (after Action.turnedOff).intercept.getD 0 := by
  let x : Table ℝ := ⟨1, [0]⟩
  let fresh : Estimator ℝ :=
    after [.set (.intercept true), .set (.step 1), .set (.iterations 1)]
  let c : Course ℝ 2 := fresh.settings.course .constant 1
  let p : Problem ℝ 1 := ⟨[⟨0, .positive⟩], List.cons_ne_nil _ _⟩
  have hp : Problem.ofData x [1] = .ok p := p.ofData_table
  have hdesign : Problem.ofData x.withOnes [1] = .ok .constant := Problem.constant.ofData_table
  have hsound : c.params.Sound :=
    Params.sound_standard (show (0 : ℝ) ≤ 0.1 by norm_num) zero_lt_one 1
  have hstep : fresh.settings.firstStep x.withOnes = .ok 1 := rfl
  obtain ⟨log, hrun⟩ := Settings.run_eq hdesign hstep (Params.check_eq_ok_iff.2 hsound)
  obtain ⟨log', hfit⟩ : ∃ log, fresh.fit x [1] = .ok ⟨fresh.keep (c.paths 1).estimates, log⟩ :=
    fit_eq hp hrun
  have hlast : (c.paths 1).estimates.last = Vec.cons ((c.found 0).step / 2) 0 :=
    (Trajectory.last_along _ 1).trans (c.estimate_one_constant rfl rfl)
  have hafter : after Action.turnedOff =
      (fresh.keep (c.paths 1).estimates).set (.intercept false) :=
    congrArg (·.set (.intercept false)) (perform_fit_of_ok hfit)
  rw [hafter, keep_of_intercept rfl hlast]
  exact ⟨rfl, rfl, half_pos (c.found_step_pos hsound 0)⟩

/-- It predicts the label that it was fitted to, and scores it as wrong. -/
theorem not_scoredAsPredicted_after :
    (Estimator.after Action.turnedOff).predict ⟨1, [0]⟩ = .ok [.positive] ∧
    (Estimator.after Action.turnedOff).errorRate ⟨1, [0]⟩ [1] = .ok 1 ∧
    ¬(Estimator.after Action.turnedOff).ScoredAsPredicted := by
  obtain ⟨hflag, hw, hpos⟩ := Estimator.after_turnedOff
  have hpositive : Label.ofScore ((0 : Vec ℝ 1).dot 0 +
      (Estimator.after Action.turnedOff).intercept.getD 0) = .positive := by
    rw [Label.ofScore_eq_positive_iff, Vec.zero_dot, zero_add]
    exact hpos
  have hnegative : Label.ofScore ((0 : Vec ℝ 1).dot 0) ≠ .positive := by
    rw [ne_eq, Label.ofScore_eq_positive_iff, Vec.zero_dot]
    exact lt_irrefl 0
  refine ⟨?_, ?_, ?_⟩
  · exact (Estimator.predict_eq hw).trans (congrArg (Except.ok [·]) hpositive)
  · refine (Estimator.errorRate_single hflag hw 0 .positive).trans (congrArg Except.ok ?_)
    rw [Label.disagreements_singleton, if_neg hnegative, Nat.cast_one]
  · exact Estimator.not_scoredAsPredicted hflag hw (hpositive.trans_ne hnegative.symm)

end RidgeLogistic
