import RidgeLogistic.Proofs.Resampling
import RidgeLogistic.Proofs.Surrogate

/-!
# Scores and what becomes of them

A row has a score, which is turned into a probability and then into a label. Over exact arithmetic
the clamped logistic function keeps what the logistic function is known for. It never decreases,
also where its pieces meet, since it is below one before the upper clamp and above zero after the
lower one (`sigmoid_monotone`). And as the clamps lie at the same distance from zero, turning the
score around turns the probability around (`sigmoid_neg`).

Of the label the sign of the score is all that counts. So it does not matter by what positive
number the coefficients are multiplied, and their negation decides every row the other way, unless
the row has the score zero, for which both decide for the negative label. Both say something of the
fraction of wrong decisions, which is a count of such rows (`Problem.misclassification_mul`,
`Problem.misclassification_neg`).
-/

namespace RidgeLogistic

/-! ## The logistic function between its clamps -/

section

variable {z : ℝ}

theorem sigmoid_of_large (h : 500 < z) : sigmoid z = 1 := by
  have hclamp : (500.0 : ℝ) = 500 := by norm_num
  exact if_pos (hclamp.trans_lt h)

theorem sigmoid_of_small (h : z < -500) : sigmoid z = 0 := by
  have hclamp : (500.0 : ℝ) = 500 := by norm_num
  have hlarge : ¬(500.0 : ℝ) < z := by linarith
  have hsmall : z < -(500.0 : ℝ) := by linarith
  exact (if_neg hlarge).trans (if_pos hsmall)

theorem sigmoid_of_between (hlow : -500 ≤ z) (hhigh : z ≤ 500) : sigmoid z = Real.sigmoid z := by
  have hclamp : (500.0 : ℝ) = 500 := by norm_num
  have hlarge : ¬(500.0 : ℝ) < z := by linarith
  have hsmall : ¬z < -(500.0 : ℝ) := by linarith
  rw [Real.sigmoid_def]
  exact ((if_neg hlarge).trans (if_neg hsmall)).trans (one_div _)

theorem sigmoid_mem_Icc (z : ℝ) : sigmoid z ∈ Set.Icc (0 : ℝ) 1 := by
  rcases lt_or_ge 500 z with hlarge | hhigh
  · rw [sigmoid_of_large hlarge]
    exact ⟨zero_le_one, le_rfl⟩
  · rcases lt_or_ge z (-500) with hsmall | hlow
    · rw [sigmoid_of_small hsmall]
      exact ⟨le_rfl, zero_le_one⟩
    · rw [sigmoid_of_between hlow hhigh]
      exact ⟨Real.sigmoid_nonneg z, Real.sigmoid_le_one z⟩

/-- The two clamps are at the bounds of all values, so that only two scores between them need to be
compared. -/
theorem sigmoid_monotone : Monotone (sigmoid : ℝ → ℝ) := by
  intro a b hab
  rcases lt_or_ge 500 b with hlarge | hhigh
  · rw [sigmoid_of_large hlarge]
    exact (sigmoid_mem_Icc a).2
  · rcases lt_or_ge a (-500) with hsmall | hlow
    · rw [sigmoid_of_small hsmall]
      exact (sigmoid_mem_Icc b).1
    · rw [sigmoid_of_between hlow (hab.trans hhigh), sigmoid_of_between (hlow.trans hab) hhigh]
      exact Real.sigmoid_monotone hab

theorem sigmoid_neg (z : ℝ) : sigmoid (-z) = 1 - sigmoid z := by
  rcases lt_or_ge 500 z with hlarge | hhigh
  · rw [sigmoid_of_large hlarge, sigmoid_of_small (neg_lt_neg hlarge), sub_self]
  · rcases lt_or_ge z (-500) with hsmall | hlow
    · rw [sigmoid_of_small hsmall, sigmoid_of_large (lt_neg_of_lt_neg hsmall), sub_zero]
    · rw [sigmoid_of_between hlow hhigh,
        sigmoid_of_between (neg_le_neg hhigh) (neg_le.1 hlow), Real.sigmoid_neg]

end

theorem Label.ofScore_eq_ite (z : ℝ) [Decidable (0 < z)] :
    ofScore z = if 0 < z then .positive else .negative := by
  split
  · next h => exact (ofScore_eq_positive_iff z).2 h
  · next h =>
      rw [← ofScore_eq_positive_iff] at h
      cases hscore : ofScore z with
      | positive => exact absurd hscore h
      | negative => rfl

theorem Label.value_eq_one_iff {label : Label} : (label.value : ℝ) = 1 ↔ label = .positive := by
  have hone : (Label.positive.value : ℝ) = 1 := rfl
  rw [← hone]
  exact value_injective.eq_iff

/-! ## Wrong decisions -/

variable {d : Nat}

theorem Vec.dot_map_neg (u v : Vec ℝ d) : u.dot (v.map (- ·)) = -u.dot v := by
  simp only [dot_eq_sum, get_map, mul_neg, Finset.sum_neg_distrib]

namespace Sample

variable {s : Sample ℝ d} {β : Vec ℝ d}

theorem misclassified_iff_score :
    s.misclassified β = true ↔ ¬(0 < s.features.dot β ↔ s.label = .positive) := by
  rw [misclassified_iff, Label.ofScore_eq_ite]
  cases s.label <;> by_cases h : 0 < s.features.dot β <;> simp [h]

theorem misclassified_mul {c : ℝ} (hc : 0 < c) : s.misclassified (β * c) = s.misclassified β := by
  rw [Bool.eq_iff_iff, misclassified_iff_score, misclassified_iff_score, Vec.dot_mul,
    mul_pos_iff_of_pos_left hc]

/-- Away from zero the score has a sign to turn around. -/
theorem misclassified_neg (h : s.features.dot β ≠ 0) :
    s.misclassified (β.map (- ·)) = !s.misclassified β := by
  have hsign : 0 < -s.features.dot β ↔ ¬0 < s.features.dot β := by
    rw [neg_pos, not_lt]
    exact ⟨le_of_lt, fun hle => lt_of_le_of_ne hle h⟩
  rw [Bool.eq_not, Ne, Bool.eq_iff_iff, misclassified_iff_score, misclassified_iff_score,
    Vec.dot_map_neg, hsign]
  tauto

end Sample

namespace Problem

variable {p : Problem ℝ d} {β : Vec ℝ d}

theorem misclassification_eq_zero_iff :
    p.misclassification β = 0 ↔ ∀ s ∈ p.samples, s.misclassified β = false := by
  rw [misclassification_eq_div, div_eq_zero_iff, or_iff_left p.size_pos_real.ne', Nat.cast_eq_zero,
    List.countP_eq_zero]
  simp only [Bool.not_eq_true]

theorem misclassification_eq_one_iff :
    p.misclassification β = 1 ↔ ∀ s ∈ p.samples, s.misclassified β = true := by
  rw [misclassification_eq_div, div_eq_one_iff_eq p.size_pos_real.ne', Nat.cast_inj, size,
    List.countP_eq_length]

theorem misclassification_mul {c : ℝ} (hc : 0 < c) :
    p.misclassification (β * c) = p.misclassification β := by
  simp only [misclassification_eq_div, Sample.misclassified_mul hc]

theorem misclassification_neg (h : ∀ s ∈ p.samples, s.features.dot β ≠ 0) :
    p.misclassification (β.map (- ·)) = 1 - p.misclassification β := by
  have hturned : p.samples.countP (·.misclassified (β.map (- ·))) =
      p.samples.countP fun s => !s.misclassified β :=
    List.countP_congr fun s hs => by rw [Sample.misclassified_neg (h s hs)]
  have hsplit : p.samples.countP (fun s => !s.misclassified β) +
      p.samples.countP (·.misclassified β) = p.size := by
    rw [size, p.samples.length_eq_countP_add_countP (·.misclassified β), Nat.add_comm]
    congr 1
    exact List.countP_congr fun s _ => by simp
  rw [misclassification_eq_div, misclassification_eq_div, hturned, eq_sub_iff_add_eq, ← add_div,
    ← Nat.cast_add, hsplit, div_self p.size_pos_real.ne']

end Problem

/-! ## Models and their negations -/

namespace Estimator

/-- The model with its coefficients and its intercept turned around. -/
noncomputable def negated (model : Estimator ℝ) : Estimator ℝ :=
  { model with
    coefficients := model.coefficients.map (·.map (- ·))
    intercept := model.intercept.map (- ·) }

variable {model : Estimator ℝ} {x : Table ℝ} {w : Vec ℝ x.width}

theorem coefficients_negated (hw : model.coefficients = some w.toList) :
    model.negated.coefficients = some (w.map (- ·)).toList := by
  rw [negated, hw]
  rfl

theorem intercept_negated (model : Estimator ℝ) :
    model.negated.intercept.getD 0 = -model.intercept.getD 0 := by
  rw [negated]
  cases model.intercept with
  | none => exact neg_zero.symm
  | some b => rfl

theorem probabilities_negated (hw : model.coefficients = some w.toList) :
    model.negated.probabilities x =
      .ok (x.rows.map fun row => 1 - sigmoid (row.dot w + model.intercept.getD 0)) := by
  rw [probabilities_eq (coefficients_negated hw)]
  refine congrArg Except.ok (List.map_congr_left fun row _ => ?_)
  rw [Vec.dot_map_neg, intercept_negated, ← sigmoid_neg, neg_add]

end Estimator

open Classical in
/-- What a row is answered is a matter of its score. The probability is between zero and one and
grows with the score, or stays where it is; it is turned around with the model; and the label is
the positive one just for positive scores. Likewise the rate of wrong decisions is the fraction of
the samples of which it is not the case that the score is positive just where the response is one.
It is zero if every sample is decided correctly and one if none is. It stays as it is when the
coefficients are multiplied by a positive number, and it is turned around with them as long as no
score is zero. -/
theorem decided_by_score :
    (Monotone (sigmoid : ℝ → ℝ) ∧ ∀ s : ℝ, 0 ≤ sigmoid s ∧ sigmoid s ≤ 1) ∧
    (∀ (model : Estimator ℝ) (x : Table ℝ) (w : Vec ℝ x.width),
      model.coefficients = some w.toList →
      let score : Vec ℝ x.width → ℝ := fun row => row.dot w + model.intercept.getD 0
      model.probabilities x = .ok (x.rows.map fun row => sigmoid (score row)) ∧
      model.negated.probabilities x = .ok (x.rows.map fun row => 1 - sigmoid (score row)) ∧
      model.predict x =
        .ok (x.rows.map fun row => if 0 < score row then .positive else .negative)) ∧
    ∀ (x : Table ℝ) (y : List ℝ), (∃ p, Problem.ofData x y = .ok p) → ∀ β : Vec ℝ x.width,
      let Wrong : Vec ℝ x.width × ℝ → Prop := fun (row, v) => ¬(0 < row.dot β ↔ v = 1)
      ∃ rate, misclassification x y β.toList = .ok rate ∧
        rate = (x.rows.zip y).countP (decide <| Wrong ·) / x.height ∧
        (rate = 0 ↔ ∀ pair ∈ x.rows.zip y, ¬Wrong pair) ∧
        (rate = 1 ↔ ∀ pair ∈ x.rows.zip y, Wrong pair) ∧
        (∀ c, 0 < c → misclassification x y (β.toList.map (· * c)) = .ok rate) ∧
        ((∀ row ∈ x.rows, row.dot β ≠ 0) →
          misclassification x y (β.toList.map (- ·)) = .ok (1 - rate)) := by
  refine ⟨⟨sigmoid_monotone, sigmoid_mem_Icc⟩, fun model x w hw => ?_, ?_⟩
  · intro score
    refine ⟨Estimator.probabilities_eq hw, Estimator.probabilities_negated hw, ?_⟩
    rw [Estimator.predict_eq hw]
    exact congrArg Except.ok (List.map_congr_left fun row _ => Label.ofScore_eq_ite _)
  · rintro x y ⟨p, hp⟩ β Wrong
    have hwrong : ∀ s : Sample ℝ x.width,
        s.misclassified β = true ↔ Wrong s.datum := by
      intro s
      rw [Sample.misclassified_iff_score, ← Label.value_eq_one_iff]
      rfl
    refine ⟨_, misclassification_eq hp β, ?_, ?_, ?_, fun c hc => ?_, fun hscores => ?_⟩
    · rw [Problem.misclassification_eq_div, Problem.size_of_ofData hp, Problem.zip_of_ofData hp,
        List.countP_map]
      congr 2
      exact List.countP_congr fun s _ => by
        rw [hwrong, Function.comp_apply, decide_eq_true_iff]
    · rw [Problem.misclassification_eq_zero_iff, Problem.zip_of_ofData hp, List.forall_mem_map]
      simp only [← hwrong, Bool.not_eq_true]
    · rw [Problem.misclassification_eq_one_iff, Problem.zip_of_ofData hp, List.forall_mem_map]
      simp only [← hwrong]
    · rw [← Problem.misclassification_mul hc]
      exact misclassification_eq hp (β * c)
    · rw [← Problem.misclassification_neg]
      · exact misclassification_eq hp (β.map (- ·))
      · intro s hs
        exact hscores _ (Problem.features_of_ofData hp ▸ List.mem_map_of_mem hs)

/-- A row beyond the clamp and one with the score zero, which is decided for the negative label by
the coefficients and by their negation. -/
theorem decided_by_score_tie :
    let model : Estimator ℝ := { Estimator.ofSettings .standard with coefficients := some [600] }
    let x : Table ℝ := ⟨1, [.replicate 1 1, 0]⟩
    model.predict x = .ok [.positive, .negative] ∧
      misclassification x [1, -1] [600] = .ok 0 ∧ misclassification x [1, 1] [-600] = .ok 1 := by
  intro model x
  let p (label : Label) : Problem ℝ 1 :=
    ⟨[⟨.replicate 1 1, .positive⟩, ⟨0, label⟩], List.cons_ne_nil _ _⟩
  have hp : ∀ label, Problem.ofData x [1, label.value] = .ok (p label) :=
    fun label => (p label).ofData_table
  have hscore : ∀ b : ℝ, (.replicate 1 1 : Vec ℝ 1).dot (.replicate 1 b) = b := fun b => by
    simp [Vec.dot_eq_sum]
  obtain ⟨-, hmodel, hdata⟩ := decided_by_score
  obtain ⟨-, -, hpredict⟩ := hmodel model x (.replicate 1 600) rfl
  obtain ⟨rate, hrate, -, hzero, -⟩ := hdata x [1, -1] ⟨_, hp .negative⟩ (.replicate 1 600)
  obtain ⟨rate', hrate', -, -, hone, -⟩ := hdata x [1, 1] ⟨_, hp .positive⟩ (.replicate 1 (-600))
  refine ⟨?_, ?_, ?_⟩
  · refine hpredict.trans ?_
    simp [x, model, Estimator.ofSettings, hscore]
  · obtain rfl : rate = 0 := hzero.2 (by simp [x, hscore]; norm_num)
    exact hrate
  · obtain rfl : rate' = 1 := hone.2 (by simp [x, hscore])
    exact hrate'

end RidgeLogistic
