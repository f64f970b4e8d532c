import RidgeLogistic.Loss
import RidgeLogistic.Proofs.Exact

/-!
# Convexity of the penalised loss

Over exact arithmetic the objective lies above each of its tangent planes, by the
penalty times the squared distance (`Problem.tangent_le_objective`), and below the
tangent plane by a quadratic in the data (`Problem.objective_add_le`).

Where a number bounds that quadratic (`Problem.CurvatureLE`), small steps along the
negative gradient decrease the objective by any fraction of the linear decrease
(`Problem.decrease_of_curvature`).

Both bounds are facts about one sample, summed. The logistic loss has the slope
`logisticWeight`, which increases, but nowhere faster than by a quarter; so the loss is
above its tangents, and `m² / 8` minus the loss is above its own. A margin is linear in
the coefficients, and the penalty is an exact quadratic.
-/

namespace RidgeLogistic

/-! ## The loss at one margin -/

theorem logisticLoss_eq (m : ℝ) : logisticLoss m = Real.log (1 + Real.exp m) := rfl

theorem logisticWeight_eq (m : ℝ) : logisticWeight m = Real.sigmoid m := by
  have h : logisticWeight m = Real.exp m / (1 + Real.exp m) := rfl
  have hpos := Real.exp_pos m
  rw [h, Real.sigmoid_def, Real.exp_neg]
  field_simp
  ring

theorem logisticWeight_neg (m : ℝ) : logisticWeight (-m) = 1 - logisticWeight m := by
  rw [logisticWeight_eq, logisticWeight_eq, Real.sigmoid_neg]

theorem logisticLoss_nonneg (m : ℝ) : 0 ≤ logisticLoss m := by
  rw [logisticLoss_eq]
  exact Real.log_nonneg (by linarith [Real.exp_pos m])

theorem hasDerivAt_logisticLoss (m : ℝ) :
    HasDerivAt logisticLoss (logisticWeight m) m := by
  have hexp : HasDerivAt (fun t => 1 + Real.exp t) (Real.exp m) m :=
    (Real.hasDerivAt_exp m).const_add 1
  exact hexp.log (by linarith [Real.exp_pos m])

/-- A function whose slope increases between two points lies above its tangent there. -/
theorem tangent_le_of_monotoneOn {f slope : ℝ → ℝ} (hf : ∀ m, HasDerivAt f (slope m) m)
    (m t : ℝ) (hslope : MonotoneOn slope (Set.uIcc m (m + t))) :
    f m + slope m * t ≤ f (m + t) := by
  have hcont : Continuous f := continuous_iff_continuousAt.2 fun m => (hf m).continuousAt
  rcases lt_trichotomy t 0 with ht | ht | ht
  · obtain ⟨c, hc, heq⟩ := exists_hasDerivAt_eq_slope f slope
      (show m + t < m by linarith) hcont.continuousOn fun z _ => hf z
    have hle : slope c ≤ slope m :=
      hslope (Set.mem_uIcc_of_ge hc.1.le hc.2.le) Set.left_mem_uIcc hc.2.le
    rw [eq_div_iff (by linarith)] at heq
    nlinarith
  · rw [ht, mul_zero, add_zero, add_zero]
  · obtain ⟨c, hc, heq⟩ := exists_hasDerivAt_eq_slope f slope
      (show m < m + t by linarith) hcont.continuousOn fun z _ => hf z
    have hle : slope m ≤ slope c :=
      hslope Set.left_mem_uIcc (Set.mem_uIcc_of_le hc.1.le hc.2.le) hc.1.le
    rw [eq_div_iff (by linarith)] at heq
    nlinarith

theorem tangent_le_logisticLoss (m t : ℝ) :
    logisticLoss m + logisticWeight m * t ≤ logisticLoss (m + t) := by
  refine tangent_le_of_monotoneOn hasDerivAt_logisticLoss m t ?_
  intro a _ b _ hab
  rw [logisticWeight_eq, logisticWeight_eq]
  exact Real.sigmoid_monotone hab

/-- The slope of the loss has the slope `w (1 - w)`, which is a quarter at most. -/
theorem monotone_quarter_sub_logisticWeight :
    Monotone fun m : ℝ => m / 4 - logisticWeight m := by
  have hderiv : ∀ m : ℝ, HasDerivAt (fun m : ℝ => m / 4 - logisticWeight m)
      (1 / 4 - Real.sigmoid m * (1 - Real.sigmoid m)) m := by
    intro m
    simp only [logisticWeight_eq]
    exact ((hasDerivAt_id m).div_const 4).sub (Real.hasDerivAt_sigmoid m)
  refine monotone_of_deriv_nonneg (fun m => (hderiv m).differentiableAt) fun m => ?_
  rw [(hderiv m).deriv]
  nlinarith [sq_nonneg (Real.sigmoid m - 1 / 2)]

theorem logisticLoss_add_le (m t : ℝ) :
    logisticLoss (m + t) ≤ logisticLoss m + logisticWeight m * t + t ^ 2 / 8 := by
  have hderiv : ∀ m : ℝ, HasDerivAt (fun m : ℝ => m ^ 2 / 8 - logisticLoss m)
      (m / 4 - logisticWeight m) m := by
    intro m
    have hsq := ((hasDerivAt_id m).pow 2).div_const 8
    refine (hsq.sub (hasDerivAt_logisticLoss m)).congr_deriv ?_
    simp only [id]
    ring
  have h := tangent_le_of_monotoneOn hderiv m t
    (monotone_quarter_sub_logisticWeight.monotoneOn _)
  linarith

/-! ## The objective -/

variable {d : Nat}

namespace Sample

variable (s : Sample ℝ d)

theorem margin_eq (β : Vec ℝ d) : s.margin β = -(s.label.value * s.features.dot β) := rfl

theorem margin_add (β v : Vec ℝ d) : s.margin (β + v) = s.margin β + s.margin v := by
  simp only [margin_eq, Vec.dot_add]
  ring

theorem margin_mul (v : Vec ℝ d) (a : ℝ) : s.margin (v * a) = a * s.margin v := by
  simp only [margin_eq, Vec.dot_mul]
  ring

theorem margin_sq (v : Vec ℝ d) : s.margin v ^ 2 = s.features.dot v ^ 2 := by
  have hvalue : (s.label.value : ℝ) = 1 ∨ (s.label.value : ℝ) = -1 := by
    cases s.label with
    | positive => exact Or.inl rfl
    | negative => exact Or.inr rfl
  rw [margin_eq]
  rcases hvalue with h | h
  · rw [h, one_mul, neg_sq]
  · rw [h, neg_one_mul, neg_neg]

end Sample

namespace Problem

variable (p : Problem ℝ d) (penalty : ℝ)

theorem size_pos_real : 0 < (p.size : ℝ) :=
  Nat.cast_pos.2 p.size_pos

theorem objective_eq_sum (β : Vec ℝ d) :
    p.objective penalty β =
      (p.samples.map fun s => logisticLoss (s.margin β)).sum / p.size +
        penalty * β.dot β := by
  rw [objective, total_eq_sum]

/-- The penalty part bounds the objective from below: the loss is not negative. -/
theorem penalty_le_objective (β : Vec ℝ d) :
    penalty * β.dot β ≤ p.objective penalty β := by
  rw [objective_eq_sum]
  have hsum : 0 ≤ (p.samples.map fun s => logisticLoss (s.margin β)).sum := by
    refine List.sum_nonneg fun m hm => ?_
    obtain ⟨s, -, rfl⟩ := List.mem_map.1 hm
    exact logisticLoss_nonneg _
  have := div_nonneg hsum p.size_pos_real.le
  linarith

/-- Along a direction, the pull of the data is the sum of the weighted margins, with the
sign turned. -/
theorem pull_dot (β v : Vec ℝ d) :
    (p.pull β).dot v =
      -(p.samples.map fun s => logisticWeight (s.margin β) * s.margin v).sum := by
  rw [pull, Vec.map_foldl_add (f := (·.dot v)) (fun u w => Vec.add_dot u w v), Vec.zero_dot,
    zero_add, ← neg_one_mul, ← List.sum_map_mul_left]
  refine congrArg List.sum (List.map_congr_left fun s _ => ?_)
  rw [Vec.mul_dot, s.margin_eq v]
  show (s.label.value * logisticWeight (s.margin β)) * _ = _
  ring

/-- The pull of the data with other weights for the margins. -/
noncomputable def pullWith (weight : ℝ → ℝ) (β : Vec ℝ d) : Vec ℝ d :=
  p.samples.foldl (fun sum s => sum + s.features * (s.label.value * weight (s.margin β))) 0

theorem get_pullWith (weight : ℝ → ℝ) (β : Vec ℝ d) (j : Fin d) :
    (p.pullWith weight β).get j = (p.samples.map fun s =>
      s.features.get j * (s.label.value * weight (s.margin β))).sum := by
  rw [pullWith, Vec.map_foldl_add (f := (·.get j)) (fun u w => Vec.get_add u w j), Vec.get_zero,
    zero_add]
  exact congrArg List.sum (List.map_congr_left fun s _ => Vec.get_mul _ _ j)

theorem get_pull (β : Vec ℝ d) (j : Fin d) :
    (p.pull β).get j = (p.samples.map fun s =>
      s.features.get j * (s.label.value * logisticWeight (s.margin β))).sum :=
  p.get_pullWith logisticWeight β j

theorem gradient_eq_add (β : Vec ℝ d) :
    p.gradient penalty β = p.pull β * (-1 / (p.size : ℝ)) + β * (2 * penalty) := by
  have hgrad : p.gradient penalty β =
      p.pull β * (-1 / (p.size : ℝ)) + β * ((2.0 : ℝ) * penalty) := rfl
  rw [hgrad]
  norm_num

theorem gradient_dot (β v : Vec ℝ d) :
    (p.gradient penalty β).dot v =
      (p.samples.map fun s => logisticWeight (s.margin β) * s.margin v).sum / p.size +
        2 * penalty * β.dot v := by
  rw [gradient_eq_add, Vec.add_dot, Vec.mul_dot, Vec.mul_dot, pull_dot]
  ring

/-- The objective lies above its tangent planes, by the penalty times the squared
distance to the point of contact. -/
theorem tangent_le_objective (β z : Vec ℝ d) :
    p.objective penalty β + (p.gradient penalty β).dot (z - β) +
        penalty * (z - β).dot (z - β) ≤ p.objective penalty z := by
  have hloss : (p.samples.map fun s => logisticLoss (s.margin β)).sum +
      (p.samples.map fun s => logisticWeight (s.margin β) * s.margin (z - β)).sum ≤
        (p.samples.map fun s => logisticLoss (s.margin z)).sum := by
    rw [← List.sum_map_add]
    refine List.sum_le_sum fun s _ => ?_
    have h := tangent_le_logisticLoss (s.margin β) (s.margin (z - β))
    rwa [← s.margin_add, show β + (z - β) = z from Vec.ext_get fun i => by simp] at h
  have hmean := div_le_div_of_nonneg_right hloss p.size_pos_real.le
  rw [add_div] at hmean
  rw [objective_eq_sum, objective_eq_sum, gradient_dot, Vec.sub_dot_sub, Vec.dot_sub,
    Vec.dot_comm z β]
  linarith

variable {penalty} in
/-- At a point with gradient zero the tangent plane is level, so that the gap to its objective
is at least the penalty times the squared distance. -/
theorem penalty_le_gap {z : Vec ℝ d} (hz : p.gradient penalty z = 0) (β : Vec ℝ d) :
    penalty * (β - z).dot (β - z) ≤ p.objective penalty β - p.objective penalty z := by
  have htangent := p.tangent_le_objective penalty z β
  rw [hz, Vec.zero_dot] at htangent
  linarith

variable {penalty} in
theorem objective_le_of_gradient_eq_zero (hpen : 0 ≤ penalty) {z : Vec ℝ d}
    (hz : p.gradient penalty z = 0) (β : Vec ℝ d) :
    p.objective penalty z ≤ p.objective penalty β := by
  have hgap := p.penalty_le_gap hz β
  have hdist := mul_nonneg hpen (Vec.dot_self_nonneg (β - z))
  linarith

/-- The objective lies below the tangent plane and a quadratic in the data. -/
theorem objective_add_le (β v : Vec ℝ d) :
    p.objective penalty (β + v) ≤
      p.objective penalty β + (p.gradient penalty β).dot v +
        (p.samples.map fun s => s.margin v ^ 2).sum / (8 * p.size) +
          penalty * v.dot v := by
  have hloss : (p.samples.map fun s => logisticLoss (s.margin (β + v))).sum ≤
      (p.samples.map fun s => logisticLoss (s.margin β)).sum +
        (p.samples.map fun s => logisticWeight (s.margin β) * s.margin v).sum +
          (p.samples.map fun s => s.margin v ^ 2).sum / 8 := by
    rw [div_eq_mul_inv, ← List.sum_map_mul_right, ← List.sum_map_add, ← List.sum_map_add]
    refine List.sum_le_sum fun s _ => ?_
    rw [s.margin_add]
    exact logisticLoss_add_le _ _
  have hmean := div_le_div_of_nonneg_right hloss p.size_pos_real.le
  rw [add_div, add_div, div_div] at hmean
  rw [objective_eq_sum, objective_eq_sum, gradient_dot, Vec.add_dot, Vec.dot_add,
    Vec.dot_add, Vec.dot_comm v β]
  linarith

/-- The same for a step against a direction. -/
theorem objective_sub_mul_le (β v : Vec ℝ d) (η : ℝ) :
    p.objective penalty (β - v * η) ≤
      p.objective penalty β - η * (p.gradient penalty β).dot v +
        η ^ 2 * ((p.samples.map fun s => s.margin v ^ 2).sum / (8 * p.size) +
          penalty * v.dot v) := by
  have h := p.objective_add_le penalty β (v * (-η))
  have hsquares : (p.samples.map fun s => s.margin (v * (-η)) ^ 2) =
      p.samples.map fun s => η ^ 2 * s.margin v ^ 2 := by
    refine List.map_congr_left fun s _ => ?_
    rw [s.margin_mul]
    ring
  rw [Vec.add_mul_neg, hsquares, List.sum_map_mul_left, Vec.dot_mul, Vec.mul_dot, Vec.dot_mul,
    mul_div_assoc] at h
  linarith

/-- A number bounds the curvature of the objective along every direction. -/
structure CurvatureLE (L : ℝ) : Prop where
  bound : ∀ v : Vec ℝ d, (p.samples.map fun s => s.margin v ^ 2).sum / (4 * p.size) +
    2 * penalty * v.dot v ≤ L * v.dot v

/-- The curvature in terms of the data that poses the problem: the labels do not matter. -/
theorem curvatureLE_iff_of_ofData {x : Table ℝ} {y : List ℝ} {p : Problem ℝ x.width}
    (hp : Problem.ofData x y = .ok p) {penalty L : ℝ} :
    p.CurvatureLE penalty L ↔ ∀ v : Vec ℝ x.width,
      (x.rows.map fun row => row.dot v ^ 2).sum / (4 * x.height) + 2 * penalty * v.dot v ≤
        L * v.dot v := by
  have hsquares : ∀ v : Vec ℝ x.width, (p.samples.map fun s => s.margin v ^ 2) =
      x.rows.map fun row => row.dot v ^ 2 := by
    intro v
    rw [← features_of_ofData hp, List.map_map]
    exact List.map_congr_left fun s _ => s.margin_sq v
  simp only [← hsquares, ← size_of_ofData hp]
  exact ⟨fun h => h.bound, fun h => ⟨h⟩⟩

/-- What a step along the negative gradient achieves at least, by the curvature. -/
theorem objective_step_le {L : ℝ} (hL : p.CurvatureLE penalty L) (β : Vec ℝ d) (η : ℝ) :
    p.objective penalty (β - p.gradient penalty β * η) ≤
      p.objective penalty β -
        η * (1 - L * η / 2) * (p.gradient penalty β).dot (p.gradient penalty β) := by
  have hstep := p.objective_sub_mul_le penalty β (p.gradient penalty β) η
  have hcurv := hL.bound (p.gradient penalty β)
  generalize p.gradient penalty β = grad at hstep hcurv ⊢
  have hhalf : (p.samples.map fun s => s.margin grad ^ 2).sum / (8 * (p.size : ℝ)) =
      (p.samples.map fun s => s.margin grad ^ 2).sum / (4 * (p.size : ℝ)) / 2 := by
    rw [div_div]
    ring
  have hquad : η ^ 2 * ((p.samples.map fun s => s.margin grad ^ 2).sum / (8 * p.size) +
      penalty * grad.dot grad) ≤ η ^ 2 * (L * grad.dot grad / 2) :=
    mul_le_mul_of_nonneg_left (by linarith) (sq_nonneg η)
  linarith

/-- What it achieves at most, by the penalty alone. -/
theorem objective_step_ge (β : Vec ℝ d) (η : ℝ) :
    p.objective penalty β -
        η * (1 - penalty * η) * (p.gradient penalty β).dot (p.gradient penalty β) ≤
      p.objective penalty (β - p.gradient penalty β * η) := by
  have htangent := p.tangent_le_objective penalty β (β - p.gradient penalty β * η)
  generalize p.gradient penalty β = grad at htangent ⊢
  have hmove : β - grad * η - β = grad * (-η) := Vec.ext_get fun i => by simp
  rw [hmove, Vec.mul_dot, Vec.dot_mul] at htangent
  linarith

/-- Steps that are small against the curvature achieve a fraction of the linear decrease. -/
theorem decrease_of_curvature {L fraction η : ℝ} (hL : p.CurvatureLE penalty L)
    (hη : 0 < η) (hsmall : L * η < 2 * (1 - fraction)) {β : Vec ℝ d}
    (hgrad : p.gradient penalty β ≠ 0) :
    p.objective penalty (β - p.gradient penalty β * η) <
      p.objective penalty β -
        fraction * η * (p.gradient penalty β).dot (p.gradient penalty β) := by
  have hstep := p.objective_step_le penalty hL β η
  generalize p.gradient penalty β = grad at hstep hgrad ⊢
  have hpos : 0 < grad.dot grad := Vec.dot_self_pos hgrad
  have hless : η * grad.dot grad * (L * η) < η * grad.dot grad * (2 * (1 - fraction)) :=
    mul_lt_mul_of_pos_left hsmall (mul_pos hη hpos)
  linarith

end Problem

end RidgeLogistic
