import RidgeLogistic.Proofs.Convexity
import RidgeLogistic.Proofs.Decisions
import RidgeLogistic.Proofs.Parameters

/-!
# The loss and the errors it stands for

What is to be small is the fraction of wrong decisions, and what is minimised is the objective.
The two are written down apart: a margin carries the sign of the label, while a decision
compares a clamped probability with one half and then the labels. Over exact arithmetic they
meet in one fact about a sample: where the decision is wrong, the margin is not negative
(`Sample.margin_nonneg_of_misclassified`). That holds of a score of zero too, which decides
against the positive label at the margin zero.

So a wrong decision costs at least the loss there, `log 2`, and all samples cost something
(`Problem.log_two_mul_misclassification_le`). An objective that is too small for a single wrong
decision leaves none.
-/

namespace RidgeLogistic

variable {d : Nat}

/-! ## One sample -/

theorem log_two_le_logisticLoss {m : ℝ} (hm : 0 ≤ m) : Real.log 2 ≤ logisticLoss m := by
  rw [logisticLoss_eq]
  exact Real.log_le_log two_pos (by linarith [Real.one_le_exp hm])

namespace Sample

variable {s : Sample ℝ d} {β : Vec ℝ d}

theorem misclassified_iff :
    s.misclassified β = true ↔ Label.ofScore (s.features.dot β) ≠ s.label :=
  bne_iff_ne

theorem margin_nonneg_of_misclassified (h : s.misclassified β = true) : 0 ≤ s.margin β := by
  rw [misclassified_iff] at h
  rw [margin_eq]
  cases hlabel : s.label with
  | positive =>
      rw [hlabel, Ne, Label.ofScore_eq_positive_iff, not_lt] at h
      have hvalue : (Label.positive.value : ℝ) = 1 := rfl
      rw [hvalue, one_mul]
      exact neg_nonneg.2 h
  | negative =>
      have hpositive : Label.ofScore (s.features.dot β) = .positive := by
        cases hscore : Label.ofScore (s.features.dot β) with
        | positive => rfl
        | negative => exact absurd (hscore.trans hlabel.symm) h
      have hvalue : (Label.negative.value : ℝ) = -1 := rfl
      rw [hvalue, neg_one_mul, neg_neg]
      exact (Label.ofScore_eq_positive_iff _).1 hpositive |>.le

end Sample

/-! ## All samples -/

/-- Entries of a kind that costs at least `c` cost at least `c` times their number. -/
theorem mul_countP_le_sum {β : Type} {cost : β → ℝ} {bad : β → Bool} {c : ℝ}
    (hcost : ∀ b, 0 ≤ cost b) (hbad : ∀ b, bad b = true → c ≤ cost b) (bs : List β) :
    c * bs.countP bad ≤ (bs.map cost).sum := by
  induction bs with
  | nil => simp
  | cons b bs ih =>
      rw [List.map_cons, List.sum_cons]
      cases hb : bad b with
      | true =>
          rw [List.countP_cons_of_pos hb]
          push_cast
          linarith [hbad b hb]
      | false =>
          rw [List.countP_cons_of_neg (Bool.eq_false_iff.1 hb)]
          linarith [hcost b]

namespace Problem

variable (p : Problem ℝ d) (penalty : ℝ) (β : Vec ℝ d)

theorem misclassification_eq_div :
    p.misclassification β = (p.samples.countP (·.misclassified β) : ℝ) / p.size := rfl

theorem log_two_mul_misclassification_le :
    Real.log 2 * p.misclassification β + penalty * β.dot β ≤ p.objective penalty β := by
  have hloss : Real.log 2 * p.samples.countP (·.misclassified β) ≤
      (p.samples.map fun s => logisticLoss (s.margin β)).sum :=
    mul_countP_le_sum (fun s => logisticLoss_nonneg _)
      (fun s hs => log_two_le_logisticLoss (s.margin_nonneg_of_misclassified hs)) _
  have hmean := div_le_div_of_nonneg_right hloss p.size_pos_real.le
  rw [misclassification_eq_div, objective_eq_sum, ← mul_div_assoc]
  linarith

variable {p penalty β}

/-- An objective that a single wrong decision would exceed. -/
theorem countP_misclassified_eq_zero (hpen : 0 ≤ penalty)
    (h : p.objective penalty β < Real.log 2 / p.size) :
    p.samples.countP (·.misclassified β) = 0 := by
  have hlog : 0 < Real.log 2 := Real.log_pos one_lt_two
  have hless : Real.log 2 * p.misclassification β < Real.log 2 / p.size := by
    have hle := p.log_two_mul_misclassification_le penalty β
    have hsquare := mul_nonneg hpen β.dot_self_nonneg
    linarith
  rw [misclassification_eq_div, ← mul_div_assoc,
    div_lt_div_iff_of_pos_right p.size_pos_real] at hless
  have hcount : (p.samples.countP (·.misclassified β) : ℝ) < 1 :=
    lt_of_mul_lt_mul_left (hless.trans_eq (mul_one _).symm) hlog.le
  exact Nat.cast_lt_one.1 hcount

theorem responses_of_ofData {x : Table ℝ} {y : List ℝ} {p : Problem ℝ x.width}
    (hp : Problem.ofData x y = .ok p) : p.responses = y := by
  obtain ⟨labels, hlabels, hlength, hsamples⟩ := samples_of_ofData hp
  rw [responses, hsamples, List.map_zipWith, ← List.map_uncurry_zip_eq_zipWith,
    ← Label.map_value_of_readFrom hlabels]
  exact congrArg _ (List.map_snd_zip (Nat.le_of_eq hlength.symm))

/-- Where no sample is decided wrongly the decisions are the responses. -/
theorem decisions_eq_of_ofData {x : Table ℝ} {y : List ℝ} {p : Problem ℝ x.width}
    (hp : Problem.ofData x y = .ok p) {β : Vec ℝ x.width}
    (h : ∀ s ∈ p.samples, s.misclassified β = false) :
    (x.rows.map fun row => (Label.ofProbability (sigmoid (row.dot β))).value) = y := by
  rw [← responses_of_ofData hp, ← features_of_ofData hp, responses, List.map_map, List.map_map]
  refine List.map_congr_left fun s hs => ?_
  have hright : Label.ofScore (s.features.dot β) = s.label := by
    by_contra hwrong
    exact Bool.eq_false_iff.1 (h s hs) (Sample.misclassified_iff.2 hwrong)
  exact congrArg Label.value hright

end Problem

/-- The objective is at least the fraction of wrong decisions times `log 2`, plus the penalty
part. So it is at least the penalty part, and where it is below the share of one sample in
`log 2` every sample is decided correctly. -/
theorem misclassification_le_objective {x : Table ℝ} {y : List ℝ} {p : Problem ℝ x.width}
    (hp : Problem.ofData x y = .ok p) {penalty : ℝ} (hpen : 0 ≤ penalty)
    (β : Vec ℝ x.width) :
    ∃ value rate, objective x y β.toList penalty = .ok value ∧
      misclassification x y β.toList = .ok rate ∧
      Real.log 2 * rate + penalty * β.dot β ≤ value ∧ penalty * β.dot β ≤ value ∧
      (value < Real.log 2 / x.height → rate = 0 ∧
        (x.rows.map fun row => (Label.ofProbability (sigmoid (row.dot β))).value) = y) := by
  refine ⟨p.objective penalty β, p.misclassification β,
    objective_eq hp (checkPenalty_eq_ok_iff.2 hpen) β, misclassification_eq hp β,
    p.log_two_mul_misclassification_le penalty β, p.penalty_le_objective penalty β, fun h => ?_⟩
  rw [← Problem.size_of_ofData hp] at h
  have hzero := Problem.countP_misclassified_eq_zero hpen h
  refine ⟨?_, Problem.decisions_eq_of_ofData hp fun s hs => ?_⟩
  · rw [Problem.misclassification_eq_div, hzero, Nat.cast_zero, zero_div]
  · exact Bool.eq_false_iff.2 (List.countP_eq_zero.1 hzero s hs)

/-- At zero the bound is attained by a positive sample, and away from there it is decided
correctly. -/
theorem misclassification_le_objective_single :
    let x : Table ℝ := ⟨1, [.replicate 1 1]⟩
    (0 : ℝ) ≤ 0 ∧ (∃ p, Problem.ofData x [1] = .ok p) ∧
      (∃ value rate, objective x [1] [0] 0 = .ok value ∧ misclassification x [1] [0] = .ok rate ∧
        rate = 1 ∧ value = Real.log 2 * rate) ∧
      ∃ value, objective x [1] [1] 0 = .ok value ∧ value < Real.log 2 ∧
        misclassification x [1] [1] = .ok 0 := by
  intro x
  let p : Problem ℝ 1 := ⟨[⟨.replicate 1 1, .positive⟩], List.cons_ne_nil _ _⟩
  have hp : Problem.ofData x [1] = .ok p := p.ofData_table
  have hobjective : ∀ b : ℝ, p.objective 0 (.replicate 1 b) = Real.log (1 + Real.exp (-b)) := by
    intro b
    rw [Problem.objective_eq_sum]
    simp [p, Problem.size, Sample.margin_eq, logisticLoss_eq, Label.value, Vec.dot_eq_sum]
  have hwrong : p.misclassification (.replicate 1 0) = 1 := by
    have hscore : Label.ofScore ((.replicate 1 1 : Vec ℝ 1).dot (.replicate 1 0)) ≠ .positive := by
      rw [Ne, Label.ofScore_eq_positive_iff]
      simp [Vec.dot_eq_sum]
    have hmiss : (⟨.replicate 1 1, .positive⟩ : Sample ℝ 1).misclassified (.replicate 1 0) = true :=
      Sample.misclassified_iff.2 hscore
    rw [Problem.misclassification_eq_div]
    simp [p, Problem.size, hmiss]
  have hchecked := fun b : ℝ =>
    objective_eq hp (checkPenalty_eq_ok_iff.2 le_rfl) (.replicate 1 b : Vec ℝ 1)
  obtain ⟨value, rate, hvalue, hrate, -⟩ :=
    misclassification_le_objective hp le_rfl (.replicate 1 0)
  obtain rfl := Except.ok.inj (hvalue.symm.trans (hchecked 0))
  obtain rfl := Except.ok.inj (hrate.symm.trans (misclassification_eq hp _))
  obtain ⟨value', rate', hvalue', hrate', -, -, hsmall⟩ :=
    misclassification_le_objective hp le_rfl (.replicate 1 1)
  obtain rfl := Except.ok.inj (hvalue'.symm.trans (hchecked 1))
  have hless : p.objective 0 (.replicate 1 1) < Real.log 2 := by
    rw [hobjective]
    have hexp : Real.exp (-1) < 1 := Real.exp_lt_one_iff.2 (by norm_num)
    exact Real.log_lt_log (by positivity) (by linarith)
  refine ⟨le_rfl, ⟨p, hp⟩, ⟨_, _, hvalue, hrate, hwrong, ?_⟩, _, hvalue', hless, ?_⟩
  · rw [hwrong, hobjective, neg_zero, Real.exp_zero, mul_one]
    norm_num
  · obtain ⟨rfl, -⟩ := hsmall (by simpa [x, Table.height] using hless)
    exact hrate'

end RidgeLogistic
