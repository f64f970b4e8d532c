import RidgeLogistic.Proofs.Convexity
import RidgeLogistic.Proofs.Parameters
import RidgeLogistic.Proofs.Reports
import RidgeLogistic.Proofs.Search

/-!
# Descent over whole runs

Read over exact arithmetic. The search tests candidates of its own making, and the
iteration moves to a point of its own making; they are the same point, so what the test
promises holds of the move (`Course.decrease_of_accepted`). A gradient of length zero is
not tested at all: then the move goes nowhere, and the promised decrease is none.

In plain descent each iteration starts where the one before it ended, and the decreases
add up: without stalls the objective never rises, and since the loss is not negative
the penalty keeps the iterates in a ball.
-/

namespace RidgeLogistic

variable {d : Nat}

/-! ## Values along a sequence -/

/-- A value that no step of a sequence raises is not raised between any two places. -/
theorem le_of_steps_le {g : Nat → ℝ} {n : Nat} (h : ∀ k < n, g (k + 1) ≤ g k) {j k : Nat}
    (hjk : j ≤ k) (hk : k ≤ n) : g k ≤ g j := by
  induction k, hjk using Nat.le_induction with
  | base => exact le_refl _
  | succ k hjk ih => exact (h k hk).trans (ih (by omega))

theorem Trajectory.pairwise_along (f : Nat → Vec ℝ d) (value : Vec ℝ d → ℝ) {n : Nat}
    (h : ∀ k < n, value (f (k + 1)) ≤ value (f k)) :
    ((along f n).points.map value).Pairwise (· ≥ ·) := by
  rw [points_along, List.map_map, List.pairwise_map]
  refine List.pairwise_lt_range.imp_of_mem fun {j k} _ hk hjk => ?_
  rw [List.mem_range] at hk
  exact le_of_steps_le (g := fun k => value (f k)) h hjk.le (by omega)

/-! ## One iteration -/

/-- The test for a flat gradient is exact. -/
theorem flat_iff (grad : Vec ℝ d) : (grad.dot grad == 0) = true ↔ grad = 0 := by
  rw [← Vec.dot_self_eq_zero]
  exact decide_eq_true_iff

namespace Course

variable (c : Course ℝ d)

theorem beq_of_grad_ne_zero {grad : Vec ℝ d} (h : grad ≠ 0) :
    (grad.dot grad == 0) = false := by
  rw [Bool.eq_false_iff]
  exact fun hflat => h ((flat_iff _).1 hflat)

theorem found_of_grad_zero {k : Nat} (h : c.gradientAt (c.origin k) = 0) :
    c.found k = ⟨c.params.step, true, 0⟩ := by
  rw [found_eq, Problem.backtrack_of_flat _ _ _ _ _ _ ((flat_iff _).2 h)]
  rfl

theorem estimate_succ_of_grad_zero {k : Nat} (h : c.gradientAt (c.origin k) = 0) :
    c.estimate (k + 1) = c.origin k := by
  rw [estimate_succ, h, Vec.sub_zero_mul]

/-- An accepted iteration away from a flat point decreases the objective by more than
the search asks for. -/
theorem decrease_of_grad_ne_zero {k : Nat} (hacc : (c.found k).accepted = true)
    (h : c.gradientAt (c.origin k) ≠ 0) :
    c.objectiveAt (c.estimate (k + 1)) <
      c.objectiveAt (c.origin k) - c.params.search.decrease * (c.found k).step *
        (c.gradientAt (c.origin k)).dot (c.gradientAt (c.origin k)) := by
  rw [estimate_succ]
  rw [found_eq] at hacc ⊢
  exact Problem.backtrack_accepted _ _ _ _ _ _ (beq_of_grad_ne_zero h) hacc

theorem decrease_of_accepted {k : Nat} (hacc : (c.found k).accepted = true) :
    c.objectiveAt (c.estimate (k + 1)) ≤
      c.objectiveAt (c.origin k) - c.params.search.decrease * (c.found k).step *
        (c.gradientAt (c.origin k)).dot (c.gradientAt (c.origin k)) := by
  by_cases h : c.gradientAt (c.origin k) = 0
  · rw [c.estimate_succ_of_grad_zero h, h, Vec.zero_dot, mul_zero, sub_zero]
  · exact (c.decrease_of_grad_ne_zero hacc h).le

/-- A first trial that is small against the curvature is taken in every iteration. -/
theorem found_of_curvature (hc : c.params.Sound) {L : ℝ}
    (hL : c.problem.CurvatureLE c.params.penalty L)
    (hsmall : L * c.params.step < 2 * (1 - c.params.search.decrease)) (k : Nat) :
    (c.found k).accepted = true ∧ (c.found k).step = c.params.step := by
  by_cases h : c.gradientAt (c.origin k) = 0
  · rw [c.found_of_grad_zero h]
    exact ⟨rfl, rfl⟩
  · have hdec := c.problem.decrease_of_curvature c.params.penalty hL hc.step_pos hsmall h
    rw [found_eq, Problem.backtrack_of_first _ _ _ _ _ _ (beq_of_grad_ne_zero h)
      hc.maxTrials_ne_zero hdec]
    exact ⟨rfl, rfl⟩

theorem found_step_pos (hc : c.params.Sound) (k : Nat) : 0 < (c.found k).step := by
  rw [found_eq]
  exact Problem.backtrack_step_induction _ _ _ _ _ _ (P := fun η : ℝ => 0 < η)
    (fun η hη => mul_pos hη hc.shrink_pos) hc.step_pos

/-- The decrease that the search asks for is one. -/
theorem asked_nonneg (hc : c.params.Sound) (k : Nat) :
    0 ≤ c.params.search.decrease * (c.found k).step *
      (c.gradientAt (c.origin k)).dot (c.gradientAt (c.origin k)) :=
  mul_nonneg (mul_nonneg hc.decrease_pos.le (c.found_step_pos hc k).le)
    (Vec.dot_self_nonneg _)

/-- Where the search asks for half of the linear decrease, an accepted step `η` from `θ` to
`β'` brings the objective below that of any point `w` by what the squared distance to it
shrinks, `2 η (F(β') - F(w)) ≤ |θ - w|² - |β' - w|²`. It takes no more than convexity. -/
theorem three_point (hc : c.params.Sound) (hhalf : c.params.search.decrease = 1 / 2)
    {k : Nat} (hacc : (c.found k).accepted = true) (w : Vec ℝ d) :
    2 * (c.found k).step * (c.objectiveAt (c.estimate (k + 1)) - c.objectiveAt w) ≤
      (c.origin k - w).dot (c.origin k - w) -
        (c.estimate (k + 1) - w).dot (c.estimate (k + 1) - w) := by
  have hη := c.found_step_pos hc k
  have hdec := c.decrease_of_accepted hacc
  have htangent : c.objectiveAt (c.origin k) +
      (c.gradientAt (c.origin k)).dot (w - c.origin k) +
        c.params.penalty * (w - c.origin k).dot (w - c.origin k) ≤ c.objectiveAt w :=
    c.problem.tangent_le_objective c.params.penalty (c.origin k) w
  have hpenalty : 0 ≤ c.params.penalty * (w - c.origin k).dot (w - c.origin k) :=
    mul_nonneg hc.penalty_nonneg (Vec.dot_self_nonneg _)
  rw [hhalf] at hdec
  have hgap : c.objectiveAt (c.estimate (k + 1)) - c.objectiveAt w ≤
      (c.gradientAt (c.origin k)).dot (c.origin k) - (c.gradientAt (c.origin k)).dot w -
        1 / 2 * (c.found k).step *
          (c.gradientAt (c.origin k)).dot (c.gradientAt (c.origin k)) := by
    rw [Vec.dot_sub] at htangent
    linarith
  have hmul := mul_le_mul_of_nonneg_left hgap (show 0 ≤ 2 * (c.found k).step by linarith)
  refine hmul.trans (le_of_eq ?_)
  rw [estimate_succ]
  simp only [Vec.sub_dot, Vec.dot_sub, Vec.mul_dot, Vec.dot_mul, Vec.dot_comm _ w,
    Vec.dot_comm (c.origin k) (c.gradientAt (c.origin k))]
  ring

/-- What an iteration without a stall does, in terms of what the run gives and reports. -/
theorem decrease_of_not_stalled {n k : Nat} (hk : k < n)
    (hstall : ¬Stalled (c.events n).toArray (k + 1)) :
    ∃ point reached η,
      (c.paths n).origins.get? k = some point ∧
      (c.paths n).estimates.get? (k + 1) = some reached ∧
      .stepped c.scheme.title (k + 1) reached η ∈ (c.events n).toArray ∧
      c.objectiveAt reached ≤ c.objectiveAt point -
        c.params.search.decrease * η * (c.gradientAt point).dot (c.gradientAt point) ∧
      (c.gradientAt point ≠ 0 → c.objectiveAt reached < c.objectiveAt point -
        c.params.search.decrease * η * (c.gradientAt point).dot (c.gradientAt point)) ∧
      (c.gradientAt point = 0 → reached = point) := by
  have hacc := c.accepted_of_not_stalled hk hstall
  refine ⟨c.origin k, c.estimate (k + 1), (c.found k).step, ?_, ?_, ?_, ?_, ?_, ?_⟩
  · exact Trajectory.get?_along _ hk.le
  · exact Trajectory.get?_along _ hk
  · exact c.stepped_mem_events hk
  · exact c.decrease_of_accepted hacc
  · exact c.decrease_of_grad_ne_zero hacc
  · exact c.estimate_succ_of_grad_zero

/-! ## Plain descent -/

section

variable (hs : c.scheme = .plain) (h₀ : c.origin₀ = c.estimate₀)

include hs h₀

/-- An accepted iteration does not raise the objective. -/
theorem objectiveAt_succ_le (hc : c.params.Sound) {k : Nat}
    (hacc : (c.found k).accepted = true) :
    c.objectiveAt (c.estimate (k + 1)) ≤ c.objectiveAt (c.estimate k) := by
  have hdec := c.decrease_of_accepted hacc
  have hasked := c.asked_nonneg hc k
  rw [c.origin_eq_estimate hs h₀] at hdec hasked
  linarith

theorem objectives_pairwise (hc : c.params.Sound) {n : Nat}
    (hacc : ∀ k < n, (c.found k).accepted = true) :
    ((c.paths n).estimates.points.map c.objectiveAt).Pairwise (· ≥ ·) :=
  Trajectory.pairwise_along _ _ fun k hk => c.objectiveAt_succ_le hs h₀ hc (hacc k hk)

/-- Without stalls the penalty keeps all estimates below the first objective. -/
theorem penalty_le_of_mem_points (hc : c.params.Sound) {n : Nat}
    (hacc : ∀ k < n, (c.found k).accepted = true) :
    ∀ point ∈ (c.paths n).estimates.points,
      c.params.penalty * point.dot point ≤ c.objectiveAt c.estimate₀ := by
  intro point hpoint
  obtain ⟨k, hk, rfl⟩ := (Trajectory.mem_points_along _).1 hpoint
  have hbound : c.params.penalty * (c.estimate k).dot (c.estimate k) ≤
      c.objectiveAt (c.estimate k) :=
    c.problem.penalty_le_objective c.params.penalty (c.estimate k)
  have hle : c.objectiveAt (c.estimate k) ≤ c.objectiveAt (c.estimate 0) :=
    le_of_steps_le (g := fun k => c.objectiveAt (c.estimate k))
      (fun j hj => c.objectiveAt_succ_le hs h₀ hc (hacc j hj)) (Nat.zero_le k) hk
  exact hbound.trans hle

end

end Course

/-! ## A problem with a known minimum -/

/-- Two samples in one place with opposite labels. -/
noncomputable def Problem.balanced : Problem ℝ 1 where
  samples := [⟨Vec.replicate 1 1, .positive⟩, ⟨Vec.replicate 1 1, .negative⟩]
  samples_ne_nil := List.cons_ne_nil _ _

theorem Problem.size_balanced : (balanced.size : ℝ) = 2 := by
  norm_num [balanced, size]

theorem Problem.sum_balanced (f : ℝ → ℝ → ℝ) (β v : Vec ℝ 1) :
    (balanced.samples.map fun s => f (s.margin β) (s.margin v)).sum =
      f (-β.get 0) (-v.get 0) + f (β.get 0) (v.get 0) := by
  have hdot : ∀ v : Vec ℝ 1, (Vec.replicate 1 (1 : ℝ)).dot v = v.get 0 := by
    intro v
    simp [Vec.dot_eq_sum]
  have hpos : ∀ v, (Sample.mk (Vec.replicate 1 (1 : ℝ)) .positive).margin v = -v.get 0 := by
    intro v
    rw [Sample.margin_eq, hdot]
    exact congrArg Neg.neg (one_mul _)
  have hneg : ∀ v, (Sample.mk (Vec.replicate 1 (1 : ℝ)) .negative).margin v = v.get 0 := by
    intro v
    rw [Sample.margin_eq, hdot]
    show -((-1 : ℝ) * v.get 0) = v.get 0
    ring
  rw [balanced, List.map_cons, List.map_cons, List.map_nil, hpos, hpos, hneg, hneg,
    List.sum_cons, List.sum_cons, List.sum_nil, add_zero]

theorem Problem.get_gradient_balanced (penalty : ℝ) (β : Vec ℝ 1) :
    (balanced.gradient penalty β).get 0 =
      logisticWeight (β.get 0) - 1 / 2 + 2 * penalty * β.get 0 := by
  have h := balanced.gradient_dot penalty β (Vec.replicate 1 1)
  rw [sum_balanced (fun m t => logisticWeight m * t), size_balanced, Vec.dot_eq_sum,
    Vec.dot_eq_sum, Fin.sum_univ_one, Fin.sum_univ_one, Vec.get_replicate,
    logisticWeight_neg] at h
  linarith

theorem Problem.gradient_balanced_zero (penalty : ℝ) : balanced.gradient penalty 0 = 0 := by
  rw [← Vec.dot_self_eq_zero, gradient_dot, sum_balanced (fun m t => logisticWeight m * t)]
  simp

theorem Problem.balanced_minimum (penalty : ℝ) (hpen : 0 ≤ penalty) (w : Vec ℝ 1) :
    balanced.objective penalty 0 ≤ balanced.objective penalty w :=
  balanced.objective_le_of_gradient_eq_zero hpen (gradient_balanced_zero penalty) w

theorem Problem.curvatureLE_balanced (penalty : ℝ) :
    balanced.CurvatureLE penalty (1 / 4 + 2 * penalty) := by
  refine ⟨fun v => ?_⟩
  rw [sum_balanced (fun _ t => t ^ 2) v, size_balanced, Vec.dot_eq_sum, Fin.sum_univ_one]
  exact le_of_eq (by ring)

/-- A solver whose first trial is small against the curvature of the balanced problem. -/
noncomputable def Solver.tenth : Solver ℝ where
  params := Params.standard (1 / 10) 1 5
  accepted := Params.check_eq_ok_iff.2
    (Params.sound_standard (by norm_num) zero_lt_one 5)

theorem Solver.decrease_tenth : Solver.tenth.params.search.decrease = 1 / 2 := by
  show (0.5 : ℝ) = 1 / 2
  norm_num

theorem Course.found_of_tenth (c : Course ℝ 1) (hp : c.problem = .balanced)
    (hc : c.params = Solver.tenth.params) (k : Nat) :
    (c.found k).accepted = true ∧ (c.found k).step = 1 := by
  have hsound : c.params.Sound := hc ▸ Solver.tenth.sound
  have hstep : c.params.step = 1 := by rw [hc]; rfl
  have hpen : c.params.penalty = 1 / 10 := by rw [hc]; rfl
  have hdec : c.params.search.decrease = 1 / 2 := by rw [hc]; exact Solver.decrease_tenth
  rw [← hstep]
  refine c.found_of_curvature hsound (hp ▸ Problem.curvatureLE_balanced _) ?_ k
  rw [hstep, hpen, hdec]
  norm_num

/-- An iteration of which no stall is reported decreases the objective by the decrease
that its search asked for, counted from the point that it started from and with the step
that it reports; by more than that unless the gradient was zero, and then it stays where
it is. In plain descent that point is the iterate before, so that in a run without stalls
the objective never rises, and all iterates lie in the ball that the penalty leaves
below the first objective. -/
theorem Solver.descent_of_not_stalled (solver : Solver ℝ) {x : Table ℝ} {y : List ℝ}
    {p : Problem ℝ x.width} (hp : Problem.ofData x y = .ok p) (β θ : Vec ℝ x.width)
    {σ : Type} (observer : Observer ℝ x.width σ) (state : σ) :
    let F := p.objective solver.params.penalty
    let grad := p.gradient solver.params.penalty
    let decrease := solver.params.search.decrease
    (∃ path seen log events,
      solver.descendWith x y β.toList observer state = .ok ⟨(path, seen), log⟩ ∧
      solver.descentEvents x y β.toList = .ok events ∧
      (∀ k < solver.params.iterations, ¬Stalled events (k + 1) →
        ∃ point reached η,
          path.get? k = some point ∧ path.get? (k + 1) = some reached ∧
          .stepped Scheme.plain.title (k + 1) reached η ∈ events ∧
          F reached ≤ F point - decrease * η * (grad point).dot (grad point) ∧
          (grad point ≠ 0 →
            F reached < F point - decrease * η * (grad point).dot (grad point)) ∧
          (grad point = 0 → reached = point)) ∧
      ((∀ k, ¬Stalled events k) →
        (∃ values, path.objectives x y solver.params.penalty = .ok values ∧
          values.Pairwise (· ≥ ·)) ∧
        ∀ point ∈ path.points, solver.params.penalty * point.dot point ≤ F β)) ∧
    (∃ paths seen log events,
      solver.accelerateWith x y β.toList θ.toList observer state =
        .ok ⟨(paths, seen), log⟩ ∧
      solver.accelerationEvents x y β.toList θ.toList = .ok events ∧
      ∀ k < solver.params.iterations, ¬Stalled events (k + 1) →
        ∃ point reached η,
          paths.origins.get? k = some point ∧
          paths.estimates.get? (k + 1) = some reached ∧
          .stepped Scheme.accelerated.title (k + 1) reached η ∈ events ∧
          F reached ≤ F point - decrease * η * (grad point).dot (grad point)) := by
  intro F grad decrease
  refine ⟨?_, ?_⟩
  · obtain ⟨log, hrun⟩ := descendWith_eq hp solver β observer state
    refine ⟨_, _, log, _, hrun, descentEvents_eq hp solver β, ?_, ?_⟩
    · intro k hk hstall
      have hstep := (solver.plainCourse p β).decrease_of_not_stalled hk hstall
      rw [Course.origins_eq_estimates _ rfl rfl] at hstep
      exact hstep
    · intro hstall
      have hacc : ∀ k < solver.params.iterations,
          ((solver.plainCourse p β).found k).accepted = true :=
        fun k hk => Course.accepted_of_not_stalled _ hk (hstall (k + 1))
      refine ⟨⟨_, objectives_eq hp solver.checkPenalty_params _, ?_⟩, ?_⟩
      · exact Course.objectives_pairwise _ rfl rfl solver.sound hacc
      · exact Course.penalty_le_of_mem_points _ rfl rfl solver.sound hacc
  · obtain ⟨log, hrun⟩ := accelerateWith_eq hp solver β θ observer state
    refine ⟨_, _, log, _, hrun, accelerationEvents_eq hp solver β θ, ?_⟩
    intro k hk hstall
    obtain ⟨point, reached, η, hpoint, hreached, hstepped, hdec, -, -⟩ :=
      (solver.acceleratedCourse p β θ).decrease_of_not_stalled hk hstall
    exact ⟨point, reached, η, hpoint, hreached, hstepped, hdec⟩

/-- Runs of five iterations without a stall, looked at in their last one. -/
theorem descent_of_not_stalled_balanced :
    (∃ path seen log values point reached η,
      Solver.tenth.descendWith Problem.balanced.table Problem.balanced.responses [5]
        Observer.silent () = .ok ⟨(path, seen), log⟩ ∧
      path.objectives Problem.balanced.table Problem.balanced.responses (1 / 10) =
        .ok values ∧ values.Pairwise (· ≥ ·) ∧
      path.get? 4 = some point ∧ path.get? 5 = some reached ∧
      Problem.balanced.objective (1 / 10) reached ≤
        Problem.balanced.objective (1 / 10) point -
          Solver.tenth.params.search.decrease * η *
            (Problem.balanced.gradient (1 / 10) point).dot
              (Problem.balanced.gradient (1 / 10) point)) ∧
    (∃ paths seen log point reached η,
      Solver.tenth.accelerateWith Problem.balanced.table Problem.balanced.responses [5] [2]
        Observer.silent () = .ok ⟨(paths, seen), log⟩ ∧
      paths.origins.get? 4 = some point ∧ paths.estimates.get? 5 = some reached ∧
      Problem.balanced.objective (1 / 10) reached ≤
        Problem.balanced.objective (1 / 10) point -
          Solver.tenth.params.search.decrease * η *
            (Problem.balanced.gradient (1 / 10) point).dot
              (Problem.balanced.gradient (1 / 10) point)) := by
  let β : Vec ℝ 1 := Vec.replicate 1 5
  let θ : Vec ℝ 1 := Vec.replicate 1 2
  obtain ⟨⟨path, seen, log, events, hrun, hevents, hstep, hpath⟩,
      ⟨paths, seen', log', events', hrun', hevents', hstep'⟩⟩ :=
    Solver.tenth.descent_of_not_stalled Problem.balanced.ofData_table β θ
      Observer.silent ()
  obtain rfl := Except.ok.inj (hevents.symm.trans
    (descentEvents_eq Problem.balanced.ofData_table Solver.tenth β))
  obtain rfl := Except.ok.inj (hevents'.symm.trans
    (accelerationEvents_eq Problem.balanced.ofData_table Solver.tenth β θ))
  have hstall := Course.not_stalled_of_accepted (Solver.tenth.plainCourse .balanced β)
    (n := 5) fun k _ => (Course.found_of_tenth _ rfl rfl k).1
  have hstall' := Course.not_stalled_of_accepted
    (Solver.tenth.acceleratedCourse .balanced β θ)
    (n := 5) fun k _ => (Course.found_of_tenth _ rfl rfl k).1
  obtain ⟨⟨values, hvalues, hsorted⟩, -⟩ := hpath hstall
  obtain ⟨point, reached, η, hpoint, hreached, -, hdec, -⟩ :=
    hstep 4 (show 4 < 5 by norm_num) (hstall 5)
  obtain ⟨point', reached', η', hpoint', hreached', -, hdec'⟩ :=
    hstep' 4 (show 4 < 5 by norm_num) (hstall' 5)
  exact ⟨⟨path, seen, log, values, point, reached, η, hrun, hvalues, hsorted, hpoint,
      hreached, hdec⟩,
    ⟨paths, seen', log', point', reached', η', hrun', hpoint', hreached', hdec'⟩⟩

end RidgeLogistic
