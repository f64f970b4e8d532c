import RidgeLogistic.Proofs.Trials

/-!
# Derivatives and minima

Read over exact arithmetic, the gradient is the derivative of the objective along every line, and
each of its entries the derivative in one coefficient (`hasDerivAt_objective`). The objective
sums, over the samples, a function of a margin that is linear along a line, and adds an exact
quadratic.

Where the gradient is not zero the objective is therefore smaller somewhere on the line along it;
and where it is zero the tangent plane is level, and the objective, which lies above its tangent
planes, is nowhere smaller. So the points without a gradient are the minima
(`Problem.gradient_eq_zero_iff`), of which there is one at most if there is a penalty. These are
the points from which a search makes no trial (`minimum_iff_no_trial`).
-/

namespace RidgeLogistic

variable {d : Nat}

/-! ## Lines and axes -/

namespace Vec

theorem add_mul_zero (u v : Vec ℝ d) : u + v * (0 : ℝ) = u :=
  ext_get fun i => by simp

/-- The direction in which one entry grows at the rate one, and no other changes. -/
noncomputable def axis (i : Fin d) : Vec ℝ d :=
  ofFn (Pi.single i 1)

@[simp] theorem get_axis (i j : Fin d) : (axis i).get j = (Pi.single i 1 : Fin d → ℝ) j :=
  get_ofFn _ j

theorem dot_axis (v : Vec ℝ d) (i : Fin d) : v.dot (axis i) = v.get i := by
  simp [dot_eq_sum, Pi.single_apply]

theorem ofFn_update (v : Vec ℝ d) (i : Fin d) (a : ℝ) :
    ofFn (Function.update v.get i a) = v + axis i * (a - v.get i) := by
  refine ext_get fun j => ?_
  by_cases hj : j = i
  · subst hj
    simp
  · simp [hj]

end Vec

theorem hasDerivAt_sum_map {β : Type} {f : β → ℝ → ℝ} {slope : β → ℝ} {t : ℝ} (xs : List β)
    (h : ∀ x ∈ xs, HasDerivAt (f x) (slope x) t) :
    HasDerivAt (fun t => (xs.map fun x => f x t).sum) (xs.map slope).sum t := by
  induction xs with
  | nil => exact hasDerivAt_const t 0
  | cons x xs ih =>
      simp only [List.map_cons, List.sum_cons]
      have hrest := ih fun x hx => h x (List.mem_cons_of_mem _ hx)
      exact (h x List.mem_cons_self).add hrest

/-! ## The gradient -/

namespace Problem

section

variable (p : Problem ℝ d) (penalty : ℝ) (β : Vec ℝ d)

theorem hasDerivAt_line (v : Vec ℝ d) (t : ℝ) :
    HasDerivAt (fun t => p.objective penalty (β + v * t))
      ((p.gradient penalty (β + v * t)).dot v) t := by
  have hmargin : ∀ s : Sample ℝ d,
      HasDerivAt (fun t => s.margin (β + v * t)) (s.margin v) t := by
    intro s
    simp only [s.margin_add, s.margin_mul]
    exact (hasDerivAt_mul_const (s.margin v)).const_add (s.margin β)
  have hloss : HasDerivAt
      (fun t => (p.samples.map fun s => logisticLoss (s.margin (β + v * t))).sum)
      (p.samples.map fun s => logisticWeight (s.margin (β + v * t)) * s.margin v).sum t :=
    hasDerivAt_sum_map _ fun s _ => (hasDerivAt_logisticLoss _).comp t (hmargin s)
  have hsquare : HasDerivAt (fun t => penalty * (β + v * t).dot (β + v * t))
      (2 * penalty * (β + v * t).dot v) t := by
    have hexpand : (fun t => penalty * (β + v * t).dot (β + v * t)) =
        fun t => penalty * (β.dot β + t * (2 * β.dot v) + t ^ 2 * v.dot v) := by
      funext t
      simp only [Vec.add_dot, Vec.dot_add, Vec.mul_dot, Vec.dot_mul, Vec.dot_comm v β]
      ring
    have hlinear := hasDerivAt_mul_const (x := t) (2 * β.dot v)
    have hquadratic := (hasDerivAt_pow 2 t).mul_const (v.dot v)
    rw [hexpand]
    refine (((hlinear.const_add (β.dot β)).add hquadratic).const_mul penalty).congr_deriv ?_
    rw [Vec.add_dot, Vec.mul_dot]
    ring
  simp only [objective_eq_sum, gradient_dot]
  exact (hloss.div_const _).add hsquare

theorem hasDerivAt_direction (v : Vec ℝ d) :
    HasDerivAt (fun t : ℝ => p.objective penalty (β + v * t))
      ((p.gradient penalty β).dot v) 0 := by
  have h := p.hasDerivAt_line penalty β v 0
  rwa [Vec.add_mul_zero] at h

theorem hasDerivAt_entry (i : Fin d) :
    HasDerivAt (fun a => p.objective penalty (Vec.ofFn (Function.update β.get i a)))
      ((p.gradient penalty β).get i) (β.get i) := by
  have haxis := p.hasDerivAt_direction penalty β (Vec.axis i)
  rw [Vec.dot_axis] at haxis
  simp only [Vec.ofFn_update]
  refine HasDerivAt.comp_sub_const (f := fun t => p.objective penalty (β + Vec.axis i * t)) _ _ ?_
  rwa [sub_self]

end

end Problem

/-- Along every line through a point the objective has there the derivative that the gradient
gives, and each entry of the gradient is the derivative in that coefficient alone, the others
being held. This is said of the formulas, whatever the penalty; the checked calls answer with
their values for every penalty that they accept. -/
theorem hasDerivAt_objective {x : Table ℝ} {y : List ℝ} {p : Problem ℝ x.width}
    (hp : Problem.ofData x y = .ok p) (penalty : ℝ) (β : Vec ℝ x.width) :
    let F := p.objective penalty
    let grad := p.gradient penalty
    (∀ v, HasDerivAt (fun t : ℝ => F (β + v * t)) ((grad β).dot v) 0) ∧
    (∀ i, HasDerivAt (fun a => F (Vec.ofFn (Function.update β.get i a))) ((grad β).get i)
      (β.get i)) ∧
    (0 ≤ penalty → ∀ z : Vec ℝ x.width,
      objective x y z.toList penalty = .ok (F z) ∧
      gradient x y z.toList penalty = .ok (grad z)) := by
  intro F grad
  refine ⟨p.hasDerivAt_direction penalty β, p.hasDerivAt_entry penalty β, ?_⟩
  intro hpen z
  have hok := checkPenalty_eq_ok_iff.2 hpen
  exact ⟨objective_eq hp hok z, gradient_eq hp hok z⟩

theorem hasDerivAt_objective_balanced :
    HasDerivAt (fun a : ℝ => Problem.balanced.objective (1 / 10) (Vec.replicate 1 a))
      (Real.sigmoid 5 + 1 / 2) 5 := by
  obtain ⟨-, hentry, -⟩ :=
    hasDerivAt_objective Problem.balanced.ofData_table (1 / 10) (Vec.replicate 1 5)
  have hslope : (Problem.balanced.gradient (1 / 10) (Vec.replicate 1 5)).get 0 =
      Real.sigmoid 5 + 1 / 2 := by
    rw [Problem.get_gradient_balanced, Vec.get_replicate, logisticWeight_eq]
    ring
  have hpoint : ∀ a : ℝ,
      Vec.ofFn (Function.update (Vec.replicate 1 (5 : ℝ)).get 0 a) = Vec.replicate 1 a := by
    intro a
    refine Vec.ext_get fun i => ?_
    rw [Subsingleton.elim i 0]
    simp
  have hline : (fun a : ℝ => Problem.balanced.objective (1 / 10)
        (Vec.ofFn (Function.update (Vec.replicate 1 (5 : ℝ)).get 0 a))) =
      fun a => Problem.balanced.objective (1 / 10) (Vec.replicate 1 a) := by
    funext a
    rw [hpoint]
  have hzeroth := hentry (0 : Fin 1)
  rw [← hslope, ← hline]
  exact hzeroth

/-! ## Minima -/

namespace Problem

variable (p : Problem ℝ d) {penalty : ℝ} {β : Vec ℝ d}

theorem objective_lt_of_gradient_eq_zero (hpen : 0 < penalty) (h : p.gradient penalty β = 0)
    {z : Vec ℝ d} (hz : z ≠ β) : p.objective penalty β < p.objective penalty z := by
  have hgap := p.penalty_le_gap h z
  have hdist : 0 < (z - β).dot (z - β) :=
    Vec.dot_self_pos fun hzero => hz (Vec.eq_of_sub_eq_zero hzero)
  linarith [mul_pos hpen hdist]

/-- The points without a gradient are the minima. -/
theorem gradient_eq_zero_iff (hpen : 0 ≤ penalty) :
    p.gradient penalty β = 0 ↔ ∀ z, p.objective penalty β ≤ p.objective penalty z := by
  constructor
  · exact p.objective_le_of_gradient_eq_zero hpen
  · intro hmin
    -- The objective is smallest at zero on the line along the gradient, where it has the
    -- derivative `|∇F|²`.
    have hline := p.hasDerivAt_direction penalty β (p.gradient penalty β)
    have hlocal : IsLocalMin
        (fun t : ℝ => p.objective penalty (β + p.gradient penalty β * t)) 0 := by
      refine Filter.Eventually.of_forall fun t => ?_
      dsimp only
      rw [Vec.add_mul_zero]
      exact hmin _
    exact Vec.dot_self_eq_zero.1 (hlocal.hasDerivAt_eq_zero hline)

end Problem

/-- The objective lies above its tangent plane at every point, by the penalty times the squared
distance at least. A search from a point makes no trial exactly where that point is a minimum of
the objective, and then with a positive penalty it is the only one. -/
theorem minimum_iff_no_trial {x : Table ℝ} {y : List ℝ} {p : Problem ℝ x.width}
    (hp : Problem.ofData x y = .ok p) {penalty : ℝ} (hpen : 0 ≤ penalty) (β : Vec ℝ x.width) :
    let F := p.objective penalty
    (∃ g, objective x y β.toList penalty = .ok (F β) ∧
      gradient x y β.toList penalty = .ok g ∧
      ∀ z, objective x y z.toList penalty = .ok (F z) ∧
        F β + g.dot (z - β) + penalty * (z - β).dot (z - β) ≤ F z) ∧
    ∀ (step : ℝ) (search : Backtracking ℝ), 0 < step → search.check = .ok () →
      ∃ found, lineSearch x y β.toList penalty step search = .ok found ∧
        (found.value.trials = 0 ↔ ∀ z, F β ≤ F z) ∧
        (found.value.trials = 0 → 0 < penalty → ∀ z, z ≠ β → F β < F z) := by
  intro F
  have hok := checkPenalty_eq_ok_iff.2 hpen
  refine ⟨⟨_, objective_eq hp hok β, gradient_eq hp hok β, fun z => ?_⟩, ?_⟩
  · exact ⟨objective_eq hp hok z, p.tangent_le_objective penalty β z⟩
  · intro step search hstep hsearch
    have hmax : search.maxTrials ≠ 0 := (Backtracking.check_eq_ok_iff.1 hsearch).2.2
    have hflat := (p.trials_eq_zero_iff search penalty β (p.gradient penalty β) step hmax).trans
      (flat_iff _)
    refine ⟨_, lineSearch_of_checks hp hok (checkStep_eq_ok_iff.2 hstep) hsearch β, ?_, ?_⟩
    · exact hflat.trans (p.gradient_eq_zero_iff hpen)
    · intro hnone hpos z hz
      exact p.objective_lt_of_gradient_eq_zero hpos (hflat.1 hnone) hz

theorem minimum_iff_no_trial_balanced :
    ∃ found, lineSearch Problem.balanced.table Problem.balanced.responses [0] (1 / 10) 1
        .standard = .ok found ∧ found.value.trials = 0 ∧
      ∀ z, z ≠ 0 →
        Problem.balanced.objective (1 / 10) 0 < Problem.balanced.objective (1 / 10) z := by
  have hpen : (0 : ℝ) < 1 / 10 := by norm_num
  obtain ⟨-, hsearch⟩ := minimum_iff_no_trial Problem.balanced.ofData_table hpen.le 0
  obtain ⟨found, hfound, hnone, hunique⟩ :=
    hsearch 1 .standard one_pos Solver.tenth.check_search
  have htrials := hnone.2 (Problem.balanced_minimum _ hpen.le)
  exact ⟨found, hfound, htrials, hunique htrials hpen⟩

end RidgeLogistic
