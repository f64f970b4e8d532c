import RidgeLogistic.Proofs.SufficientDecrease

/-!
# Rates of plain descent

Read over exact arithmetic. In plain descent each step starts where the one before it
ended, so what a step says about the squared distances at its two ends adds up along the
run. How fast the gap to the objective of another point closes depends on the penalty.

Without one there is convexity. Where the search asks for half of the linear decrease,
the three-point inequality makes every step pay for the gap that it leaves with a part of
the squared distance to the other point. All that can be paid in a run is the distance
at its start, and the last gap is the smallest one, so the sum of the steps bounds it
(`Course.sum_steps_mul_gap_le`).

A penalty curves the objective by `2 * penalty` in every direction. Then a point cannot
be flat and far from the minimum at once: the gap is at most the squared gradient over
`4 * penalty` (`Problem.gap_le_gradient`), of which each accepted step takes its share
(`Course.gap_succ_le`).
-/

namespace RidgeLogistic

variable {d : Nat}

/-! ## What a positive penalty gives -/

namespace Problem

variable (p : Problem ℝ d) {penalty : ℝ}

/-- The gap to any point is dominated by the gradient: the paraboloid that bounds the
objective from below has its minimum there. -/
theorem gap_le_gradient (hpen : 0 < penalty) (β z : Vec ℝ d) :
    4 * penalty * (p.objective penalty β - p.objective penalty z) ≤
      (p.gradient penalty β).dot (p.gradient penalty β) := by
  have htangent := p.tangent_le_objective penalty β z
  generalize p.gradient penalty β = grad at htangent ⊢
  generalize z - β = v at htangent
  have hsquare : 0 ≤ grad.dot grad + 4 * penalty * grad.dot v +
      4 * penalty * (penalty * v.dot v) := by
    have h := Vec.dot_self_nonneg (grad + v * (2 * penalty))
    simp only [Vec.add_dot, Vec.dot_add, Vec.mul_dot, Vec.dot_mul, Vec.dot_comm v grad] at h
    linarith
  have hmul := mul_le_mul_of_nonneg_left htangent (show 0 ≤ 4 * penalty by linarith)
  linarith

end Problem

namespace Course

variable (c : Course ℝ d)
variable (hs : c.scheme = .plain) (h₀ : c.origin₀ = c.estimate₀)

include hs h₀

/-! ## Convexity -/

theorem step_mul_gap_le (hc : c.params.Sound) (hhalf : c.params.search.decrease = 1 / 2)
    {k : Nat} (hacc : (c.found k).accepted = true) (z : Vec ℝ d) :
    2 * (c.found k).step * (c.objectiveAt (c.estimate (k + 1)) - c.objectiveAt z) ≤
      (c.estimate k - z).dot (c.estimate k - z) -
        (c.estimate (k + 1) - z).dot (c.estimate (k + 1) - z) := by
  have h := c.three_point hc hhalf hacc z
  rwa [c.origin_eq_estimate hs h₀] at h

theorem sum_steps_mul_gap_le (hc : c.params.Sound)
    (hhalf : c.params.search.decrease = 1 / 2) {n : Nat}
    (hacc : ∀ k < n, (c.found k).accepted = true) (z : Vec ℝ d) :
    2 * (∑ k ∈ Finset.range n, (c.found k).step) *
          (c.objectiveAt (c.estimate n) - c.objectiveAt z) +
        (c.estimate n - z).dot (c.estimate n - z) ≤
      (c.estimate₀ - z).dot (c.estimate₀ - z) := by
  -- All steps taken so far stay multiplied with the latest gap, which a further iteration
  -- does not raise.
  induction n with
  | zero => simp
  | succ n ih =>
      have hbefore := ih fun k hk => hacc k (by omega)
      have hpay := c.step_mul_gap_le hs h₀ hc hhalf (hacc n (by omega)) z
      have hfall := c.objectiveAt_succ_le hs h₀ hc (hacc n (by omega))
      have hsteps : 0 ≤ ∑ k ∈ Finset.range n, (c.found k).step :=
        Finset.sum_nonneg fun k _ => (c.found_step_pos hc k).le
      have hkeep := mul_le_mul_of_nonneg_left hfall hsteps
      rw [Finset.sum_range_succ]
      linarith

theorem distance_succ_le (hc : c.params.Sound) (hhalf : c.params.search.decrease = 1 / 2)
    {k : Nat} (hacc : (c.found k).accepted = true) {z : Vec ℝ d}
    (hz : ∀ w, c.objectiveAt z ≤ c.objectiveAt w) :
    (c.estimate (k + 1) - z).dot (c.estimate (k + 1) - z) ≤
      (c.estimate k - z).dot (c.estimate k - z) := by
  have hpay := c.step_mul_gap_le hs h₀ hc hhalf hacc z
  have hgap : 0 ≤ 2 * (c.found k).step *
      (c.objectiveAt (c.estimate (k + 1)) - c.objectiveAt z) :=
    mul_nonneg (mul_nonneg zero_le_two (c.found_step_pos hc k).le) (sub_nonneg.2 (hz _))
  linarith

/-! ## Strong convexity -/

/-- With a penalty an accepted iteration closes a fixed share of the gap. -/
theorem gap_succ_le (hc : c.params.Sound) (hpen : 0 < c.params.penalty) {k : Nat}
    (hacc : (c.found k).accepted = true) (z : Vec ℝ d) :
    c.objectiveAt (c.estimate (k + 1)) - c.objectiveAt z ≤
      (1 - 4 * c.params.search.decrease * c.params.penalty * (c.found k).step) *
        (c.objectiveAt (c.estimate k) - c.objectiveAt z) := by
  have hdec := c.decrease_of_accepted hacc
  rw [c.origin_eq_estimate hs h₀] at hdec
  have hgrad : 4 * c.params.penalty *
      (c.objectiveAt (c.estimate k) - c.objectiveAt z) ≤
        (c.gradientAt (c.estimate k)).dot (c.gradientAt (c.estimate k)) :=
    c.problem.gap_le_gradient hpen (c.estimate k) z
  have hshare : 0 ≤ c.params.search.decrease * (c.found k).step :=
    mul_nonneg hc.decrease_pos.le (c.found_step_pos hc k).le
  have htaken := mul_le_mul_of_nonneg_left hgrad hshare
  linarith

end Course

/-! ## The solver -/

/-- The rate without a penalty. In a run without stalls, twice the sum of the steps times
the last gap to any point is at most the squared distance to it at the start; and the
iterates do not move away from a minimum. -/
theorem Solver.descent_gap_le (solver : Solver ℝ)
    (hhalf : solver.params.search.decrease = 1 / 2) {x : Table ℝ} {y : List ℝ}
    {p : Problem ℝ x.width} (hp : Problem.ofData x y = .ok p) (β : Vec ℝ x.width)
    {σ : Type} (observer : Observer ℝ x.width σ) (state : σ) :
    let F := p.objective solver.params.penalty
    ∃ path seen log events,
      solver.descendWith x y β.toList observer state = .ok ⟨(path, seen), log⟩ ∧
      solver.descentEvents x y β.toList = .ok events ∧
      ((∀ k, ¬Stalled events k) →
        (∃ η : Nat → ℝ,
          (∀ k < solver.params.iterations, ∀ step,
            SteppedBy events (k + 1) step ↔ step = η k) ∧
          ∀ z, 2 * (∑ k ∈ Finset.range solver.params.iterations, η k) *
            (F path.last - F z) ≤ (β - z).dot (β - z)) ∧
        ∀ z, (∀ w, F z ≤ F w) →
          (path.points.map fun point => (point - z).dot (point - z)).Pairwise (· ≥ ·)) := by
  intro F
  obtain ⟨log, hrun⟩ := descendWith_eq hp solver β observer state
  refine ⟨_, _, log, _, hrun, descentEvents_eq hp solver β, ?_⟩
  intro hstall
  have hacc : ∀ k < solver.params.iterations,
      ((solver.plainCourse p β).found k).accepted = true :=
    fun k hk => Course.accepted_of_not_stalled _ hk (hstall (k + 1))
  refine ⟨⟨fun k => ((solver.plainCourse p β).found k).step, ?_, ?_⟩, ?_⟩
  · intro k hk step
    rw [Course.steppedBy_events_iff]
    exact and_iff_right hk
  · intro z
    have hsum := (solver.plainCourse p β).sum_steps_mul_gap_le rfl rfl solver.sound hhalf
      hacc z
    have hleft := Vec.dot_self_nonneg
      ((solver.plainCourse p β).estimate solver.params.iterations - z)
    show _ * (F (Trajectory.along _ _).last - _) ≤ _
    rw [Trajectory.last_along]
    exact le_trans (le_add_of_nonneg_right hleft) hsum
  · intro z hz
    exact Trajectory.pairwise_along _ (fun point => (point - z).dot (point - z))
      fun k hk => Course.distance_succ_le _ rfl rfl solver.sound hhalf (hacc k hk) hz

/-- Five steps of length one from five to a minimum at zero. -/
theorem descent_gap_le_balanced :
    ∃ path seen log,
      Solver.tenth.descendWith Problem.balanced.table Problem.balanced.responses [5]
        Observer.silent () = .ok ⟨(path, seen), log⟩ ∧
      10 * (Problem.balanced.objective (1 / 10) path.last -
        Problem.balanced.objective (1 / 10) 0) ≤ 25 ∧
      (path.points.map fun point => (point - 0).dot (point - 0)).Pairwise (· ≥ ·) := by
  let β : Vec ℝ 1 := Vec.replicate 1 5
  obtain ⟨path, seen, log, events, hrun, hevents, hrate⟩ :=
    Solver.tenth.descent_gap_le Solver.decrease_tenth Problem.balanced.ofData_table β
      Observer.silent ()
  obtain rfl := Except.ok.inj (hevents.symm.trans
    (descentEvents_eq Problem.balanced.ofData_table Solver.tenth β))
  have hfound := Course.found_of_tenth (Solver.tenth.plainCourse .balanced β) rfl rfl
  obtain ⟨⟨η, hη, hgap⟩, hdist⟩ :=
    hrate (Course.not_stalled_of_accepted _ fun k _ => (hfound k).1)
  have hone : ∀ k ∈ Finset.range 5, η k = 1 := by
    intro k hk
    have hk : k < 5 := Finset.mem_range.1 hk
    exact ((hη k hk 1).1 ((Course.steppedBy_events_iff _).2 ⟨hk, (hfound k).2.symm⟩)).symm
  refine ⟨path, seen, log, hrun, ?_, ?_⟩
  · have hsum : 2 * ∑ k ∈ Finset.range 5, η k = 10 := by
      rw [Finset.sum_congr rfl hone]
      norm_num
    have hstart : (β - 0).dot (β - 0) = 25 := by
      simp [β, Vec.dot_eq_sum]
      norm_num
    have hpaid := (hgap 0).trans (le_of_eq hstart)
    exact le_of_eq_of_le (congrArg (· * _) hsum.symm) hpaid
  · exact hdist 0 (Problem.balanced_minimum _ Solver.tenth.sound.penalty_nonneg)

/-- The rate with a penalty. An iteration of which no stall is reported closes a share of
the gap to the objective of a flat point, which is four times what the search asks for,
times the penalty, times the step; and the gap bounds the distance to that point. -/
theorem Solver.descent_gap_contracts (solver : Solver ℝ)
    (hpen : 0 < solver.params.penalty) {x : Table ℝ} {y : List ℝ}
    {p : Problem ℝ x.width} (hp : Problem.ofData x y = .ok p) (β : Vec ℝ x.width)
    {σ : Type} (observer : Observer ℝ x.width σ) (state : σ) :
    let F := p.objective solver.params.penalty
    let decrease := solver.params.search.decrease
    ∃ path seen log events,
      solver.descendWith x y β.toList observer state = .ok ⟨(path, seen), log⟩ ∧
      solver.descentEvents x y β.toList = .ok events ∧
      ∀ z, p.gradient solver.params.penalty z = 0 →
        (∀ k < solver.params.iterations, ¬Stalled events (k + 1) →
          ∃ point reached η,
            path.get? k = some point ∧ path.get? (k + 1) = some reached ∧
            .stepped Scheme.plain.title (k + 1) reached η ∈ events ∧
            F reached - F z ≤
              (1 - 4 * decrease * solver.params.penalty * η) * (F point - F z)) ∧
        ∀ point ∈ path.points,
          solver.params.penalty * (point - z).dot (point - z) ≤ F point - F z := by
  intro F decrease
  obtain ⟨log, hrun⟩ := descendWith_eq hp solver β observer state
  refine ⟨_, _, log, _, hrun, descentEvents_eq hp solver β, ?_⟩
  intro z hz
  refine ⟨?_, ?_⟩
  · intro k hk hstall
    have hacc := Course.accepted_of_not_stalled _ hk hstall
    exact ⟨_, _, _, Trajectory.get?_along _ hk.le, Trajectory.get?_along _ hk,
      Course.stepped_mem_events _ hk, Course.gap_succ_le _ rfl rfl solver.sound hpen hacc z⟩
  · intro point _
    exact p.penalty_le_gap hz point

/-- The last of five steps of length one, with the penalty one tenth. -/
theorem descent_gap_contracts_balanced :
    ∃ path seen log point reached,
      Solver.tenth.descendWith Problem.balanced.table Problem.balanced.responses [5]
        Observer.silent () = .ok ⟨(path, seen), log⟩ ∧
      path.get? 4 = some point ∧ path.get? 5 = some reached ∧
      Problem.balanced.objective (1 / 10) reached -
          Problem.balanced.objective (1 / 10) 0 ≤
        4 / 5 * (Problem.balanced.objective (1 / 10) point -
          Problem.balanced.objective (1 / 10) 0) ∧
      1 / 10 * (point - 0).dot (point - 0) ≤
        Problem.balanced.objective (1 / 10) point -
          Problem.balanced.objective (1 / 10) 0 := by
  let β : Vec ℝ 1 := Vec.replicate 1 5
  have hpen : (0 : ℝ) < 1 / 10 := by norm_num
  obtain ⟨path, seen, log, events, hrun, hevents, hrate⟩ :=
    Solver.tenth.descent_gap_contracts hpen Problem.balanced.ofData_table β
      Observer.silent ()
  obtain rfl := Except.ok.inj (hevents.symm.trans
    (descentEvents_eq Problem.balanced.ofData_table Solver.tenth β))
  have hfound := Course.found_of_tenth (Solver.tenth.plainCourse .balanced β) rfl rfl
  have hstall := Course.not_stalled_of_accepted (Solver.tenth.plainCourse .balanced β)
    (n := 5) fun k _ => (hfound k).1
  obtain ⟨hstep, hdist⟩ := hrate 0 (Problem.gradient_balanced_zero (1 / 10))
  obtain ⟨point, reached, η, hpoint, hreached, hstepped, hgap⟩ :=
    hstep 4 (show 4 < 5 by norm_num) (hstall 5)
  have hη : η = 1 := by
    have h := ((Course.steppedBy_events_iff _).1 ⟨_, _, hstepped⟩).2
    exact h.trans (hfound 4).2
  refine ⟨path, seen, log, point, reached, hrun, hpoint, hreached, ?_, ?_⟩
  · have hshare : 1 - 4 * Solver.tenth.params.search.decrease * (1 / 10) * η = 4 / 5 := by
      rw [hη, Solver.decrease_tenth]
      norm_num
    exact le_of_le_of_eq hgap (congrArg (· * _) hshare)
  · exact hdist point (List.mem_of_getElem? hpoint)

end RidgeLogistic
