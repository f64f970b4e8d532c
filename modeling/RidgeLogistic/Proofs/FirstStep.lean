import RidgeLogistic.Proofs.Spectral
import RidgeLogistic.Proofs.SufficientDecrease

/-!
# The derived first step

Read over exact arithmetic, with the greatest eigenvalue `μ` of the Gram matrix exact. The
loss curves by a quarter of `μ` at most, and the penalty by twice itself in every direction,
so that the gradient of the objective has the constant `μ / 4 + 2 * penalty`. The derived
step `η` is the inverse of `μ + penalty` instead, and what it achieves depends on how the
two compare:

    F(β - η g) ≤ F(β) - (7/8) μ η² |g|²            always,
    F(β - η g) ≤ F(β) - (η/2) |g|²                 if penalty ≤ (3/4) μ,
    F(β - η g) > F(β) - (η/2) |g|²                 if penalty > μ and g ≠ 0.

A step of this length never raises the objective, then, but it achieves half of the linear
decrease for small penalties only. Near a minimum at zero, where the loss curves by nearly a
quarter, every penalty beyond `(3/4) μ` is too large (`initialStep_decrease_sharp`).
-/

namespace RidgeLogistic

/-! ## Steps that are too long -/

/-- Where the objective curves by `2 * c` along the gradient, a step that is long against `c`
does not achieve half of the linear decrease. -/
theorem Problem.half_decrease_lt {d : Nat} (p : Problem ℝ d) {penalty c η : ℝ} {β : Vec ℝ d}
    (hstep : p.objective penalty β -
        η * (1 - c * η) * (p.gradient penalty β).dot (p.gradient penalty β) ≤
      p.objective penalty (β - p.gradient penalty β * η))
    (hη : 0 < η) (hlong : 1 < 2 * c * η) (hgrad : p.gradient penalty β ≠ 0) :
    p.objective penalty β - η / 2 * (p.gradient penalty β).dot (p.gradient penalty β) <
      p.objective penalty (β - p.gradient penalty β * η) := by
  have hless : η * (1 - c * η) < η * (1 / 2) :=
    mul_lt_mul_of_pos_left (by linarith) hη
  rw [mul_one_div] at hless
  have hshare := mul_lt_mul_of_pos_right hless (Vec.dot_self_pos hgrad)
  exact (sub_lt_sub_left hshare _).trans_le hstep

/-! ## Near a margin of zero -/

theorem logisticWeight_mem_Icc {m : ℝ} (hm : 0 ≤ m) :
    logisticWeight m ∈ Set.Icc (1 / 2) (1 / 2 + m / 4) := by
  have hzero : logisticWeight (0 : ℝ) = 1 / 2 := by
    rw [logisticWeight_eq, Real.sigmoid_zero, one_div]
  have hquarter := monotone_quarter_sub_logisticWeight hm
  simp only [hzero] at hquarter
  constructor
  · rw [← hzero, logisticWeight_eq, logisticWeight_eq]
    exact Real.sigmoid_monotone hm
  · linarith

theorem sq_logisticWeight_sub_half_le (m : ℝ) :
    (logisticWeight m - 1 / 2) ^ 2 ≤ m ^ 2 / 16 := by
  have hside : ∀ m : ℝ, 0 ≤ m → (logisticWeight m - 1 / 2) ^ 2 ≤ m ^ 2 / 16 := by
    intro m hm
    obtain ⟨hlow, hhigh⟩ := logisticWeight_mem_Icc hm
    have h := pow_le_pow_left₀ (sub_nonneg.2 hlow) (sub_le_iff_le_add'.2 hhigh) 2
    linarith
  rcases le_total 0 m with hm | hm
  · exact hside m hm
  · have h := hside (-m) (neg_nonneg.2 hm)
    rw [logisticWeight_neg] at h
    linarith

theorem monotoneOn_logisticWeight_sub (r : ℝ) :
    MonotoneOn (fun m : ℝ => logisticWeight m - (1 / 4 - r ^ 2 / 16) * m)
      (Set.Icc (-r) r) := by
  have hderiv : ∀ m : ℝ, HasDerivAt
      (fun m : ℝ => logisticWeight m - (1 / 4 - r ^ 2 / 16) * m)
      (Real.sigmoid m * (1 - Real.sigmoid m) - (1 / 4 - r ^ 2 / 16)) m := by
    intro m
    simp only [logisticWeight_eq]
    refine ((Real.hasDerivAt_sigmoid m).sub
      ((hasDerivAt_id m).const_mul (1 / 4 - r ^ 2 / 16))).congr_deriv ?_
    rw [mul_one]
  refine monotoneOn_of_deriv_nonneg (convex_Icc (-r) r)
    (fun m _ => (hderiv m).continuousAt.continuousWithinAt)
    (fun m _ => (hderiv m).differentiableAt.differentiableWithinAt) fun m hm => ?_
  -- The slope of the weight is `w (1 - w)`, which is a quarter less `(w - 1 / 2) ^ 2`.
  obtain ⟨hlow, hhigh⟩ : m ∈ Set.Icc (-r) r := interior_subset hm
  have hbound := sq_logisticWeight_sub_half_le m
  have hsq : m ^ 2 ≤ r ^ 2 := sq_le_sq' hlow hhigh
  rw [logisticWeight_eq] at hbound
  rw [(hderiv m).deriv]
  linarith

theorem curved_tangent_le_logisticLoss {r m t : ℝ} (hm : |m| ≤ r) (ht : |m + t| ≤ r) :
    logisticLoss m + logisticWeight m * t + (1 / 4 - r ^ 2 / 16) * t ^ 2 / 2 ≤
      logisticLoss (m + t) := by
  have hderiv : ∀ m : ℝ, HasDerivAt
      (fun m : ℝ => logisticLoss m - (1 / 4 - r ^ 2 / 16) * (m ^ 2 / 2))
      (logisticWeight m - (1 / 4 - r ^ 2 / 16) * m) m := by
    intro m
    have hsq := (((hasDerivAt_id m).pow 2).div_const 2).const_mul (1 / 4 - r ^ 2 / 16)
    refine ((hasDerivAt_logisticLoss m).sub hsq).congr_deriv ?_
    simp only [id]
    ring
  have h := tangent_le_of_monotoneOn hderiv m t ((monotoneOn_logisticWeight_sub r).mono
    (Set.uIcc_subset_Icc (abs_le.1 hm) (abs_le.1 ht)))
  linarith

/-! ## Two small problems -/

namespace Problem

/-- Near zero the objective of the balanced problem curves by nearly a quarter, besides what
the penalty adds. -/
theorem curved_tangent_le_balanced (penalty : ℝ) {r : ℝ} {β v : Vec ℝ 1}
    (hβ : |β.get 0| ≤ r) (hv : |β.get 0 + v.get 0| ≤ r) :
    balanced.objective penalty β + (balanced.gradient penalty β).dot v +
        ((1 / 4 - r ^ 2 / 16) / 2 + penalty) * v.dot v ≤
      balanced.objective penalty (β + v) := by
  have hobjective : ∀ β, balanced.objective penalty β =
      (logisticLoss (-β.get 0) + logisticLoss (β.get 0)) / 2 + penalty * β.dot β := by
    intro β
    rw [objective_eq_sum, sum_balanced (fun m _ => logisticLoss m) β β, size_balanced]
  have hpos := curved_tangent_le_logisticLoss hβ hv
  have hneg := curved_tangent_le_logisticLoss (r := r) (m := -β.get 0) (t := -v.get 0)
    (by rwa [abs_neg]) (by rwa [← neg_add, abs_neg])
  have hone : v.dot v = v.get 0 ^ 2 := by
    rw [Vec.dot_eq_sum, Fin.sum_univ_one, pow_two]
  rw [← neg_add] at hneg
  rw [hobjective, hobjective, gradient_dot, sum_balanced (fun m t => logisticWeight m * t),
    size_balanced, Vec.add_dot, Vec.dot_add, Vec.dot_add, Vec.dot_comm v β, Vec.get_add, hone]
  linarith

theorem abs_balanced_step_le {penalty r : ℝ} (hpen : 0 ≤ penalty) (hr : 0 < r) {β : Vec ℝ 1}
    (hβ : β.get 0 = r) :
    |β.get 0 + (balanced.gradient penalty β * (-(1 / (1 + penalty)))).get 0| ≤ r := by
  have hη : 0 < 1 / (1 + penalty) := one_div_pos.2 (by linarith)
  have hinv : (1 + penalty) * (1 / (1 + penalty)) = 1 := mul_one_div_cancel (by linarith)
  obtain ⟨hlow, hhigh⟩ := logisticWeight_mem_Icc hr.le
  rw [Vec.get_mul, get_gradient_balanced, hβ]
  generalize 1 / (1 + penalty) = η at hη hinv ⊢
  have hforth : 0 ≤ (logisticWeight r - 1 / 2 + 2 * penalty * r) * η :=
    mul_nonneg (add_nonneg (sub_nonneg.2 hlow) (by positivity)) hη.le
  have hback : (logisticWeight r - 1 / 2 + 2 * penalty * r) * η ≤ 2 * r := calc
    _ ≤ 2 * r * (1 + penalty) * η := mul_le_mul_of_nonneg_right (by linarith) hη.le
    _ = 2 * r := by rw [mul_assoc, hinv, mul_one]
  exact abs_le.2 ⟨by linarith, by linarith⟩

/-- Close to its minimum the balanced problem does not give half of the linear decrease for a
step that its greatest curvature makes too long. -/
theorem balanced_half_decrease_lt {penalty : ℝ} (hpen : 3 / 4 < penalty) :
    ∃ β : Vec ℝ 1,
      balanced.objective penalty β - 1 / (1 + penalty) / 2 *
          (balanced.gradient penalty β).dot (balanced.gradient penalty β) <
        balanced.objective penalty (β - balanced.gradient penalty β * (1 / (1 + penalty))) := by
  -- What is lost of the curvature up to `r` has to stay below `penalty - 3 / 4`.
  have hr : 0 < min 1 (penalty - 3 / 4) := lt_min one_pos (by linarith)
  have hr1 : min 1 (penalty - 3 / 4) ≤ 1 := min_le_left _ _
  have hrpen : min 1 (penalty - 3 / 4) ≤ penalty - 3 / 4 := min_le_right _ _
  generalize min 1 (penalty - 3 / 4) = r at hr hr1 hrpen
  let β : Vec ℝ 1 := Vec.replicate 1 r
  have hβ : β.get 0 = r := Vec.get_replicate r 0
  have htangent := curved_tangent_le_balanced penalty (by rw [hβ, abs_of_pos hr])
    (abs_balanced_step_le (show 0 ≤ penalty by linarith) hr hβ)
  rw [Vec.add_mul_neg, Vec.dot_mul, Vec.mul_dot, Vec.dot_mul] at htangent
  refine ⟨β, balanced.half_decrease_lt (c := (1 / 4 - r ^ 2 / 16) / 2 + penalty) ?_
    (one_div_pos.2 (by linarith)) ?_ ?_⟩
  · linarith
  · have hsq : r ^ 2 ≤ r := pow_le_of_le_one hr.le hr1 two_ne_zero
    rw [mul_one_div, one_lt_div (by linarith)]
    linarith
  · intro hzero
    have hgrad := get_gradient_balanced penalty β
    have hlow := (logisticWeight_mem_Icc hr.le).1
    have hpos : 0 < 2 * penalty * r := mul_pos (by linarith) hr
    rw [hzero, Vec.get_zero, hβ] at hgrad
    linarith

noncomputable def single : Problem ℝ 1 where
  samples := [⟨Vec.replicate 1 1, .positive⟩]
  samples_ne_nil := List.cons_ne_nil _ _

theorem gradient_single_ne_zero (penalty : ℝ) : single.gradient penalty 0 ≠ 0 := by
  intro h
  have hdot := single.gradient_dot penalty 0 (Vec.replicate 1 1)
  rw [h] at hdot
  simp [single, size, Sample.margin_eq, Label.value, Vec.dot_eq_sum, logisticWeight_eq] at hdot

end Problem

/-! ## The step -/

section

variable [Eigensolver ℝ]

theorem initialStep_eq_ok_iff {x : Table ℝ} {samples features : Nat} {penalty η : ℝ} :
    initialStep x samples features penalty = .ok η ↔
      (x.height = samples ∧ x.width = features) ∧ (samples ≠ 0 ∧ features ≠ 0) ∧
        0 ≤ penalty ∧ ∃ largest, x.largestEigenvalue = .ok largest ∧
          0 < largest + penalty ∧ η = 1 / (largest + penalty) := by
  constructor
  · intro h
    rw [initialStep] at h
    split at h
    · injection h
    · next hshape =>
        split at h
        · injection h
        · next hsize =>
            obtain ⟨_, hpen, h⟩ := exists_of_bind_eq_ok h
            obtain ⟨largest, hlargest, h⟩ := exists_of_bind_eq_ok h
            rw [not_or, not_not, not_not] at hshape
            refine ⟨hshape, not_or.1 hsize, checkPenalty_eq_ok_iff.1 hpen, largest, hlargest, ?_⟩
            split at h
            · next hpos => exact ⟨hpos, (Except.ok.inj h).symm⟩
            · injection h
  · rintro ⟨hshape, hsize, hpen, largest, hlargest, hpos, rfl⟩
    have hshape' : ¬(x.height ≠ samples ∨ x.width ≠ features) := by
      rw [not_or, not_not, not_not]
      exact hshape
    rw [initialStep, if_neg hshape', if_neg (not_or.2 hsize), checkPenalty_eq_ok_iff.2 hpen,
      hlargest]
    exact if_pos hpos

variable [ExactEigensolver]

theorem Problem.curvatureLE_of_ofData {x : Table ℝ} {y : List ℝ} {p : Problem ℝ x.width}
    (hp : Problem.ofData x y = .ok p) {largest : ℝ}
    (h : x.largestEigenvalue = .ok largest) (penalty : ℝ) :
    p.CurvatureLE penalty (largest / 4 + 2 * penalty) := by
  refine (curvatureLE_iff_of_ofData hp).2 fun v => ?_
  have hmean := Table.meanSquare_le h v
  rw [Table.meanSquare] at hmean
  rw [mul_comm 4, ← div_div]
  linarith

theorem Table.largestEigenvalue_column (rows : List (Vec ℝ 1)) :
    (Table.mk 1 rows).largestEigenvalue =
      .ok ((rows.map fun row => row.get 0 ^ 2).sum / rows.length) := by
  have hmul : ∀ v : Vec ℝ 1, Square.mulVec (Table.mk 1 rows).gram v =
      v * ((rows.map fun row => row.get 0 ^ 2).sum / (rows.length : ℝ)) := by
    intro v
    refine Vec.ext_get fun i => ?_
    rw [Subsingleton.elim i 0, Square.mulVec, Vec.get_map, Vec.get_mul, Vec.dot_eq_sum,
      Fin.sum_univ_one, get_gram, mul_comm]
    simp only [pow_two]
    rfl
  refine largestEigenvalue_eq_ok_iff.2 ⟨⟨Vec.replicate 1 1, ?_, hmul _⟩, ?_⟩
  · intro h
    have hget := congrArg (·.get 0) h
    simp at hget
  · rintro μ ⟨v, hv, heq⟩
    have hdot := congrArg v.dot ((hmul v).symm.trans heq)
    rw [Vec.dot_mul, Vec.dot_mul] at hdot
    exact (mul_right_cancel₀ (Vec.dot_self_pos hv).ne' hdot).ge

theorem Problem.largestEigenvalue_of_unit {p : Problem ℝ 1}
    (h : ∀ s ∈ p.samples, s.features.get 0 ^ 2 = 1) : p.table.largestEigenvalue = .ok 1 := by
  have hsum : ((p.samples.map Sample.features).map fun row => row.get 0 ^ 2).sum =
      (p.size : ℝ) := by
    rw [List.map_map, List.sum_eq_card_nsmul _ 1 ?_]
    · rw [List.length_map, nsmul_one]
      rfl
    · intro m hm
      obtain ⟨s, hs, rfl⟩ := List.mem_map.1 hm
      exact h s hs
  refine (Table.largestEigenvalue_column _).trans ?_
  rw [hsum, List.length_map]
  exact congrArg Except.ok (div_self p.size_pos_real.ne')

theorem Problem.initialStep_of_unit {p : Problem ℝ 1}
    (h : ∀ s ∈ p.samples, s.features.get 0 ^ 2 = 1) {penalty : ℝ} (hpen : 0 ≤ penalty) :
    initialStep p.table p.size 1 penalty = .ok (1 / (1 + penalty)) := by
  refine initialStep_eq_ok_iff.2 ⟨⟨?_, rfl⟩, ⟨p.size_pos.ne', one_ne_zero⟩, hpen, 1,
    largestEigenvalue_of_unit h, by linarith, rfl⟩
  exact List.length_map ..

theorem Problem.initialStep_balanced {penalty : ℝ} (hpen : 0 ≤ penalty) :
    initialStep balanced.table 2 1 penalty = .ok (1 / (1 + penalty)) :=
  initialStep_of_unit (p := balanced) (by simp [balanced]) hpen

/-! ## What it achieves -/

/-- A step of the derived length decreases the objective, and by half of the linear decrease
where the penalty is small against the eigenvalue, but never by as much where the penalty
exceeds it. -/
theorem initialStep_decrease {x : Table ℝ} {y : List ℝ} {p : Problem ℝ x.width}
    (hp : Problem.ofData x y = .ok p) {samples features : Nat} {penalty η : ℝ}
    (hη : initialStep x samples features penalty = .ok η) (β : Vec ℝ x.width) :
    ∃ largest g before after,
      x.largestEigenvalue = .ok largest ∧ 0 ≤ largest ∧
      gradient x y β.toList penalty = .ok g ∧
      objective x y β.toList penalty = .ok before ∧
      objective x y (β - g * η).toList penalty = .ok after ∧
      after ≤ before - 7 / 8 * largest * η ^ 2 * g.dot g ∧
      (penalty ≤ 3 / 4 * largest → after ≤ before - η / 2 * g.dot g) ∧
      (largest < penalty → g ≠ 0 → before - η / 2 * g.dot g < after) := by
  obtain ⟨-, -, hpen, largest, hlargest, hpos, rfl⟩ := initialStep_eq_ok_iff.1 hη
  have hok := checkPenalty_eq_ok_iff.2 hpen
  refine ⟨largest, _, _, _, hlargest, Table.largestEigenvalue_nonneg hlargest,
    gradient_eq hp hok β, objective_eq hp hok β, objective_eq hp hok _, ?_⟩
  have hcurv := Problem.curvatureLE_of_ofData hp hlargest penalty
  have hupper := p.objective_step_le penalty hcurv β (1 / (largest + penalty))
  have hsquare := Vec.dot_self_nonneg (p.gradient penalty β)
  have hinv : (largest + penalty) * (1 / (largest + penalty)) = 1 := mul_one_div_cancel hpos.ne'
  have hlong : largest < penalty → 1 < 2 * penalty * (1 / (largest + penalty)) := by
    intro hlarge
    rw [mul_one_div, one_lt_div hpos]
    linarith
  have hlower := fun hlarge =>
    p.half_decrease_lt (p.objective_step_ge penalty β _) (one_div_pos.2 hpos) (hlong hlarge)
  generalize p.gradient penalty β = grad at hupper hsquare hlower ⊢
  generalize 1 / (largest + penalty) = η at hupper hinv hlower ⊢
  have hshare : η * (1 - (largest / 4 + 2 * penalty) * η / 2) = 7 / 8 * largest * η ^ 2 := by
    linear_combination (-η) * hinv
  rw [hshare] at hupper
  refine ⟨hupper, ?_, hlower⟩
  intro hsmall
  have hhalf : η / 2 ≤ 7 / 8 * largest * η ^ 2 := calc
    η / 2 = (largest + penalty) * η ^ 2 / 2 := by linear_combination (-η / 2) * hinv
    _ ≤ 7 / 4 * largest * η ^ 2 / 2 := by gcongr; linarith
    _ = 7 / 8 * largest * η ^ 2 := by ring
  exact hupper.trans (sub_le_sub_left (mul_le_mul_of_nonneg_right hhalf hsquare) _)

/-- No penalty beyond three quarters of the eigenvalue is small enough for all data. -/
theorem initialStep_decrease_sharp {penalty : ℝ} (hpen : 3 / 4 < penalty) :
    Problem.balanced.table.largestEigenvalue = .ok 1 ∧
    ∃ (η : ℝ) (β g : Vec ℝ 1) (before after : ℝ),
      initialStep Problem.balanced.table 2 1 penalty = .ok η ∧
      gradient Problem.balanced.table Problem.balanced.responses β.toList penalty = .ok g ∧
      objective Problem.balanced.table Problem.balanced.responses β.toList penalty =
        .ok before ∧
      objective Problem.balanced.table Problem.balanced.responses (β - g * η).toList penalty =
        .ok after ∧
      before - η / 2 * g.dot g < after := by
  have hnonneg : 0 ≤ penalty := by linarith
  have hok := checkPenalty_eq_ok_iff.2 hnonneg
  obtain ⟨β, hβ⟩ := Problem.balanced_half_decrease_lt hpen
  have hp := Problem.balanced.ofData_table
  exact ⟨Problem.largestEigenvalue_of_unit (by simp [Problem.balanced]), _, β, _, _, _,
    Problem.initialStep_balanced hnonneg, gradient_eq hp hok β, objective_eq hp hok β,
    objective_eq hp hok _, hβ⟩

end

theorem initialStep_decrease_balanced :
    initialStep Problem.balanced.table 2 1 (1 / 10) = .ok (10 / 11) ∧
    ∃ (g : Vec ℝ 1) (before after : ℝ),
      gradient Problem.balanced.table Problem.balanced.responses [5] (1 / 10) = .ok g ∧
      objective Problem.balanced.table Problem.balanced.responses [5] (1 / 10) = .ok before ∧
      objective Problem.balanced.table Problem.balanced.responses
        (Vec.replicate 1 5 - g * (10 / 11 : ℝ)).toList (1 / 10) = .ok after ∧
      after ≤ before - 5 / 11 * g.dot g := by
  have hη : initialStep Problem.balanced.table 2 1 (1 / 10) = .ok ((10 / 11 : ℝ)) := by
    rw [Problem.initialStep_balanced (by norm_num)]
    norm_num
  obtain ⟨largest, g, before, after, hlargest, -, hg, hbefore, hafter, -, hdec, -⟩ :=
    initialStep_decrease Problem.balanced.ofData_table hη (Vec.replicate 1 5)
  have hone : largest = 1 := Except.ok.inj
    (hlargest.symm.trans (Problem.largestEigenvalue_of_unit (by simp [Problem.balanced])))
  refine ⟨hη, g, before, after, hg, hbefore, hafter, ?_⟩
  have h := hdec (by rw [hone]; norm_num)
  norm_num at h ⊢
  exact h

/-- One sample with the penalty ten, from zero: the derived step does not give half of the
linear decrease. -/
theorem initialStep_not_half_decrease :
    initialStep Problem.single.table 1 1 10 = .ok (1 / 11) ∧
    ∃ (g : Vec ℝ 1) (before after : ℝ),
      gradient Problem.single.table Problem.single.responses [0] 10 = .ok g ∧
      objective Problem.single.table Problem.single.responses [0] 10 = .ok before ∧
      objective Problem.single.table Problem.single.responses (0 - g * (1 / 11 : ℝ)).toList 10 =
        .ok after ∧
      ¬after ≤ before - 1 / 11 / 2 * g.dot g := by
  have hok : checkPenalty (10 : ℝ) = .ok () := checkPenalty_eq_ok_iff.2 (by norm_num)
  have hp := Problem.single.ofData_table
  refine ⟨?_, _, _, _, gradient_eq hp hok 0, objective_eq hp hok 0, objective_eq hp hok _, ?_⟩
  · have h := Problem.initialStep_of_unit (p := .single) (by simp [Problem.single])
      (show (0 : ℝ) ≤ 10 by norm_num)
    norm_num at h ⊢
    exact h
  · exact (Problem.single.half_decrease_lt (Problem.single.objective_step_ge 10 0 _)
      (by norm_num) (by norm_num) (Problem.gradient_single_ne_zero 10)).not_ge

end RidgeLogistic
