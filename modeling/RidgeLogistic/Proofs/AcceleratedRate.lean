import RidgeLogistic.Proofs.SufficientDecrease

/-!
# The rate of accelerated descent

Read over exact arithmetic, with the decrease that the search asks for being half of the
linear one. An accepted step `η` from `θ` to `β'` then satisfies the three-point
inequality (`Course.three_point`)

    2 η (F(β') - F(w)) ≤ |θ - w|² - |β' - w|²

for any point `w`. The rate is a matter of combining it for `w = β` and `w = z`. With
`t = (k + 2) / 2` in iteration `k`, taken `t - 1` and `1` times and then `t` times
altogether, the right-hand sides combine to the squared distances of one moving point,

    u = t θ - (t - 1) β - z,

and the weight `k / (k + 3)` of the extrapolation is the one for which the point that an
iteration leaves is the point that the next one finds (`Course.lead_succ`). So
`2 η t² (F(β') - F(z)) + |u'|²` does not grow from one iteration to the next, as long as
the steps do not: `t (t - 1)` is at most the square of the `t` before.
-/

namespace RidgeLogistic

variable {d : Nat}

namespace Course

variable (c : Course ℝ d)

/-! ## The moving point -/

/-- How many times the last point counts in iteration `k`. -/
noncomputable def momentum (k : Nat) : ℝ := (k + 2 : Nat) / (2 : Nat)

theorem momentum_eq (k : Nat) : momentum k = ((k : ℝ) + 2) / 2 := by
  rw [momentum, Nat.cast_add, Nat.cast_ofNat]

theorem momentum_zero : momentum 0 = 1 := by
  norm_num [momentum_eq]

/-- The point whose distance to `z` the iterations pay for, as iteration `k` finds it:
`z` taken off the extrapolation of `θ` beyond `β`. -/
noncomputable def lead (z : Vec ℝ d) (k : Nat) : Vec ℝ d :=
  c.origin k * momentum k - c.estimate k * (momentum k - 1) - z

theorem lead_zero (z : Vec ℝ d) : c.lead z 0 = c.origin₀ - z := by
  refine Vec.ext_get fun i => ?_
  simp [lead, momentum_zero]

/-- What iteration `k` leaves is what the next one finds: this is where the weight of
the extrapolation comes from. -/
theorem lead_succ (hs : c.scheme = .accelerated) (z : Vec ℝ d) (k : Nat) :
    c.lead z (k + 1) =
      c.estimate (k + 1) * momentum k - c.estimate k * (momentum k - 1) - z := by
  refine Vec.ext_get fun i => ?_
  have hweight : ((k : ℝ) / ((k : ℝ) + 3)) * momentum (k + 1) = momentum k - 1 := by
    rw [momentum_eq, momentum_eq]
    push_cast
    field_simp
    ring
  have horigin : (c.origin (k + 1)).get i = (c.estimate (k + 1)).get i +
      ((c.estimate (k + 1)).get i - (c.estimate k).get i) * ((k : ℝ) / ((k : ℝ) + 3)) := by
    rw [c.origin_succ_accelerated hs, Vec.get_add, Vec.get_mul, Vec.get_sub]
    norm_num
  simp only [lead, Vec.get_sub, Vec.get_mul, horigin]
  linear_combination
    ((c.estimate (k + 1)).get i - (c.estimate k).get i) * hweight

/-- The squared length of an extrapolation beyond `b`, seen from `z`. -/
theorem extrapolation_dot_self (a b z : Vec ℝ d) (t : ℝ) :
    (a * t - b * (t - 1) - z).dot (a * t - b * (t - 1) - z) =
      t * (t - 1) * (a - b).dot (a - b) + t * (a - z).dot (a - z) -
        (t - 1) * (b - z).dot (b - z) := by
  simp only [Vec.sub_dot, Vec.dot_sub, Vec.mul_dot, Vec.dot_mul, Vec.dot_comm b a,
    Vec.dot_comm z a, Vec.dot_comm z b]
  ring

theorem one_le_momentum (k : Nat) : 1 ≤ momentum k := by
  have hk : (0 : ℝ) ≤ k := Nat.cast_nonneg k
  rw [momentum_eq]
  linarith

/-- The moving point pays for the gap of the iteration. -/
theorem lead_step (hs : c.scheme = .accelerated) (hc : c.params.Sound)
    (hhalf : c.params.search.decrease = 1 / 2) {k : Nat}
    (hacc : (c.found k).accepted = true) (z : Vec ℝ d) :
    2 * (c.found k).step * momentum k ^ 2 *
          (c.objectiveAt (c.estimate (k + 1)) - c.objectiveAt z) +
        (c.lead z (k + 1)).dot (c.lead z (k + 1)) ≤
      2 * (c.found k).step * (momentum k * (momentum k - 1)) *
          (c.objectiveAt (c.estimate k) - c.objectiveAt z) +
        (c.lead z k).dot (c.lead z k) := by
  have ht := one_le_momentum k
  have hback := mul_le_mul_of_nonneg_left (c.three_point hc hhalf hacc (c.estimate k))
    (show 0 ≤ momentum k * (momentum k - 1) from mul_nonneg (by linarith) (by linarith))
  have hgoal := mul_le_mul_of_nonneg_left (c.three_point hc hhalf hacc z)
    (show 0 ≤ momentum k by linarith)
  rw [c.lead_succ hs, lead, extrapolation_dot_self, extrapolation_dot_self]
  linarith

/-! ## The run -/

/-- The invariant of accelerated descent. The induction is on the iteration; the gap of
the last estimate enters the step with a smaller factor than it leaves with, which is
where a global minimum and steps that do not grow are needed. -/
theorem potential_le (hs : c.scheme = .accelerated) (hc : c.params.Sound)
    (hhalf : c.params.search.decrease = 1 / 2) {n : Nat}
    (hacc : ∀ k < n, (c.found k).accepted = true)
    (hsteps : ∀ k, k + 1 < n → (c.found (k + 1)).step ≤ (c.found k).step)
    {z : Vec ℝ d} (hz : ∀ w, c.objectiveAt z ≤ c.objectiveAt w) {k : Nat} (hk : k < n) :
    2 * (c.found k).step * momentum k ^ 2 *
          (c.objectiveAt (c.estimate (k + 1)) - c.objectiveAt z) +
        (c.lead z (k + 1)).dot (c.lead z (k + 1)) ≤
      (c.origin₀ - z).dot (c.origin₀ - z) := by
  induction k with
  | zero =>
      have hstep := c.lead_step hs hc hhalf (hacc 0 hk) z
      rw [lead_zero, momentum_zero] at hstep
      rw [momentum_zero]
      linarith
  | succ k ih =>
      have hstep := c.lead_step hs hc hhalf (hacc (k + 1) hk) z
      have hgap : 0 ≤ c.objectiveAt (c.estimate (k + 1)) - c.objectiveAt z :=
        sub_nonneg.2 (hz _)
      have hη := c.found_step_pos hc (k + 1)
      have hfactor : 2 * (c.found (k + 1)).step *
          (momentum (k + 1) * (momentum (k + 1) - 1)) ≤
            2 * (c.found k).step * momentum k ^ 2 := by
        have hsquare : momentum (k + 1) * (momentum (k + 1) - 1) ≤ momentum k ^ 2 := by
          rw [momentum_eq, momentum_eq]
          push_cast
          nlinarith
        have hle := hsteps k hk
        calc 2 * (c.found (k + 1)).step * (momentum (k + 1) * (momentum (k + 1) - 1))
            ≤ 2 * (c.found (k + 1)).step * momentum k ^ 2 :=
              mul_le_mul_of_nonneg_left hsquare (by linarith)
          _ ≤ 2 * (c.found k).step * momentum k ^ 2 :=
              mul_le_mul_of_nonneg_right (by linarith) (sq_nonneg _)
      have hshrink := mul_le_mul_of_nonneg_right hfactor hgap
      exact hstep.trans ((add_le_add_left hshrink _).trans (ih (by omega)))

/-- The gap after iteration `k`, counted from zero. -/
theorem gap_le (hs : c.scheme = .accelerated) (hc : c.params.Sound)
    (hhalf : c.params.search.decrease = 1 / 2) {n : Nat}
    (hacc : ∀ k < n, (c.found k).accepted = true)
    (hsteps : ∀ k, k + 1 < n → (c.found (k + 1)).step ≤ (c.found k).step)
    {z : Vec ℝ d} (hz : ∀ w, c.objectiveAt z ≤ c.objectiveAt w) {k : Nat} (hk : k < n) :
    c.objectiveAt (c.estimate (k + 1)) - c.objectiveAt z ≤
      2 * (c.origin₀ - z).dot (c.origin₀ - z) /
        ((c.found k).step * ((k : ℝ) + 2) ^ 2) := by
  have hpotential := c.potential_le hs hc hhalf hacc hsteps hz hk
  have hlead := Vec.dot_self_nonneg (c.lead z (k + 1))
  have hη := c.found_step_pos hc k
  have hk2 : (0 : ℝ) < (k : ℝ) + 2 := by positivity
  rw [le_div_iff₀ (by positivity)]
  rw [momentum_eq] at hpotential
  linarith

end Course

/-- The rate of accelerated descent: in a run without stalls whose steps do not grow,
the gap to the minimum after `k` iterations falls with the square of `k`. -/
theorem Solver.accelerated_gap_le (solver : Solver ℝ)
    (hhalf : solver.params.search.decrease = 1 / 2) {x : Table ℝ} {y : List ℝ}
    {p : Problem ℝ x.width} (hp : Problem.ofData x y = .ok p) (β θ : Vec ℝ x.width)
    {σ : Type} (observer : Observer ℝ x.width σ) (state : σ) :
    let F := p.objective solver.params.penalty
    ∃ paths seen log events,
      solver.accelerateWith x y β.toList θ.toList observer state =
        .ok ⟨(paths, seen), log⟩ ∧
      solver.accelerationEvents x y β.toList θ.toList = .ok events ∧
      ((∀ k, ¬Stalled events k) →
        ∀ η : Nat → ℝ, (∀ k < solver.params.iterations, SteppedBy events (k + 1) (η k)) →
        (∀ k, k + 1 < solver.params.iterations → η (k + 1) ≤ η k) →
        ∀ z, (∀ w, F z ≤ F w) →
        ∀ k, 1 ≤ k → k ≤ solver.params.iterations → ∃ estimate,
          paths.estimates.get? k = some estimate ∧
          F estimate - F z ≤
            2 * (θ - z).dot (θ - z) / (η (k - 1) * ((k : ℝ) + 1) ^ 2)) := by
  intro F
  obtain ⟨log, hrun⟩ := accelerateWith_eq hp solver β θ observer state
  refine ⟨_, _, log, _, hrun, accelerationEvents_eq hp solver β θ, ?_⟩
  intro hstall η hη hsteps z hz k hk hle
  obtain ⟨j, rfl⟩ : ∃ j, k = j + 1 := ⟨k - 1, by omega⟩
  have hstep : ∀ k < solver.params.iterations,
      η k = ((solver.acceleratedCourse p β θ).found k).step :=
    fun k hk => ((Course.steppedBy_events_iff _).1 (hη k hk)).2
  have hgap := (solver.acceleratedCourse p β θ).gap_le rfl solver.sound hhalf
    (fun k hk => Course.accepted_of_not_stalled _ hk (hstall (k + 1)))
    (fun k hk => by
      rw [← hstep k (by omega), ← hstep (k + 1) hk]
      exact hsteps k hk)
    hz hle
  refine ⟨_, Trajectory.get?_along _ hle, ?_⟩
  rw [← hstep j hle] at hgap
  rw [Nat.add_sub_cancel, show ((j + 1 : Nat) : ℝ) + 1 = (j : ℝ) + 2 by push_cast; ring]
  exact hgap

/-- Two samples in one place with opposite labels, and a start away from the minimum. -/
theorem accelerated_gap_le_balanced :
    ∃ paths seen log estimate,
      Solver.tenth.accelerateWith Problem.balanced.table Problem.balanced.responses [5] [2]
        Observer.silent () = .ok ⟨(paths, seen), log⟩ ∧
      paths.estimates.get? 3 = some estimate ∧
      Problem.balanced.objective (1 / 10) estimate -
        Problem.balanced.objective (1 / 10) 0 ≤ 2 * 4 / (1 * 4 ^ 2) := by
  let β : Vec ℝ 1 := Vec.replicate 1 5
  let θ : Vec ℝ 1 := Vec.replicate 1 2
  obtain ⟨paths, seen, log, events, hrun, hevents, hrate⟩ :=
    Solver.tenth.accelerated_gap_le Solver.decrease_tenth Problem.balanced.ofData_table β θ
      Observer.silent ()
  obtain rfl := Except.ok.inj (hevents.symm.trans
    (accelerationEvents_eq Problem.balanced.ofData_table Solver.tenth β θ))
  have hfound := Course.found_of_tenth (Solver.tenth.acceleratedCourse .balanced β θ) rfl rfl
  obtain ⟨estimate, hget, hle⟩ := hrate
    (Course.not_stalled_of_accepted _ fun k _ => (hfound k).1) (fun _ => 1)
    (fun k hk => (Course.steppedBy_events_iff _).2 ⟨hk, (hfound k).2.symm⟩)
    (fun _ _ => le_refl _) 0
    (Problem.balanced_minimum _ Solver.tenth.sound.penalty_nonneg) 3 (by norm_num)
    (show 3 ≤ 5 by norm_num)
  refine ⟨paths, seen, log, estimate, hrun, hget, ?_⟩
  have hdist : (θ - 0).dot (θ - 0) = 4 := by
    simp [θ, Vec.dot_eq_sum]
    norm_num
  have hbound : 2 * (θ - 0).dot (θ - 0) / (1 * (((3 : Nat) : ℝ) + 1) ^ 2) =
      2 * 4 / (1 * 4 ^ 2) := by
    rw [hdist]
    norm_num
  exact le_of_le_of_eq hle hbound

end RidgeLogistic
