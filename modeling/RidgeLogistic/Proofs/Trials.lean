import RidgeLogistic.Proofs.SufficientDecrease

/-!
# The trials of a search

A search that has a slope to descend along ends at the first of its trials that passes, and
where none does at the last one that it may make (`backtrack_first_or_last`). The step that it
ends with is therefore one that it tried, and the number of trials says which.

Read over exact arithmetic, the trials fall like the powers of the shrinking factor. Where `L`
bounds the curvature of the objective every positive step below `2 * (1 - decrease) / L` passes,
so that a search cannot run out of trials once the last of them is as small as that; nor does it
shrink its step further below this bound than the one factor that took it there. The bound is the
same at every point, and hence no iteration of a run stalls (`Solver.never_stalled`).
-/

namespace RidgeLogistic

/-! ## Where a search ends -/

namespace Problem

section

variable {α : Type} [Scalar α] {d : Nat} (p : Problem α d) (search : Backtracking α)
  (penalty : α) (β grad : Vec α d) (step : α)

section

variable (hslope : (grad.dot grad == 0) = false)

include hslope

theorem backtrack_of_passes {i : Nat} (hi : i < search.maxTrials)
    (hpass : p.Passes search penalty β grad (search.trial step i))
    (hfail : ∀ j < i, ¬p.Passes search penalty β grad (search.trial step j)) :
    (p.backtrack search penalty β grad step).value = ⟨search.trial step i, true, i + 1⟩ := by
  rcases p.backtrack_cases search penalty β grad step hslope with
    ⟨k, -, hpassk, hfailk, hfound⟩ | ⟨hnone, -⟩
  · rcases Nat.lt_trichotomy i k with hlt | rfl | hgt
    · exact absurd hpass (hfailk i hlt)
    · rw [hfound]
    · exact absurd hpassk (hfail k hgt)
  · exact absurd hpass (hnone i hi)

theorem backtrack_of_fails
    (hfail : ∀ i < search.maxTrials, ¬p.Passes search penalty β grad (search.trial step i)) :
    (p.backtrack search penalty β grad step).value =
      ⟨search.trial step (search.maxTrials - 1), false, search.maxTrials⟩ := by
  rcases p.backtrack_cases search penalty β grad step hslope with ⟨i, hi, hpass, -⟩ | ⟨-, hfound⟩
  · exact absurd hpass (hfail i hi)
  · rw [hfound]

/-- A search ends with one of its trials, and the number of trials tells with which. -/
theorem exists_trial_eq_step (hmax : search.maxTrials ≠ 0) :
    let found := (p.backtrack search penalty β grad step).value
    ∃ i < search.maxTrials, found.trials = i + 1 ∧ found.step = search.trial step i := by
  rcases p.backtrack_cases search penalty β grad step hslope with
    ⟨i, hi, -, -, hfound⟩ | ⟨-, hfound⟩
  · rw [hfound]
    exact ⟨i, hi, rfl, rfl⟩
  · rw [hfound]
    exact ⟨search.maxTrials - 1, by omega, by simp only; omega, rfl⟩

end

/-- No trial is made exactly where there is no slope. -/
theorem trials_eq_zero_iff (hmax : search.maxTrials ≠ 0) :
    (p.backtrack search penalty β grad step).value.trials = 0 ↔
      (grad.dot grad == 0) = true := by
  cases hslope : grad.dot grad == 0 with
  | true =>
      rw [p.backtrack_of_flat _ _ _ _ _ hslope]
      exact iff_of_true rfl rfl
  | false =>
      obtain ⟨i, -, htrials, -⟩ := p.exists_trial_eq_step search penalty β grad step hslope hmax
      rw [htrials]
      exact iff_of_false (Nat.succ_ne_zero i) Bool.noConfusion

end

end Problem

namespace Backtracking

variable (search : Backtracking ℝ) (step : ℝ)

theorem trial_eq (i : Nat) : search.trial step i = step * search.shrink ^ i := by
  induction i with
  | zero => exact (mul_one step).symm
  | succ i ih =>
      have hshrunk : search.trial step (i + 1) = search.trial step i * search.shrink := rfl
      rw [hshrunk, ih, mul_assoc, pow_succ]

end Backtracking

/-- For any arithmetic, a search along a vector of length zero makes no trial and gives the step
that it was given. Every other search tries its steps in order: it is accepted at the first that
passes, with that step and as many trials as that took, and where none of those that it may try
passes it gives the last one and says that it was not accepted. Its step is always one that was
tried. Over exact arithmetic this step is the first trial times a power of the shrinking factor,
one less than the number of trials, and it is positive and no larger than the first trial. -/
theorem backtrack_first_or_last :
    (∀ {α : Type} [Scalar α] {d : Nat} (p : Problem α d) (search : Backtracking α) (penalty : α)
        (β grad : Vec α d) (step : α), search.maxTrials ≠ 0 →
      let found := (p.backtrack search penalty β grad step).value
      let η := search.trial step
      let passes := fun i => p.Passes search penalty β grad (η i)
      ((grad.dot grad == 0) = true → found = ⟨step, true, 0⟩) ∧
      ((grad.dot grad == 0) = false →
        (∀ i < search.maxTrials, passes i → (∀ j < i, ¬passes j) →
          found = ⟨η i, true, i + 1⟩) ∧
        ((∀ i < search.maxTrials, ¬passes i) →
          found = ⟨η (search.maxTrials - 1), false, search.maxTrials⟩) ∧
        ∃ i < search.maxTrials, found.trials = i + 1 ∧ found.step = η i) ∧
      found.trials ≤ search.maxTrials) ∧
    ∀ {d : Nat} (p : Problem ℝ d) (search : Backtracking ℝ) (penalty : ℝ) (β grad : Vec ℝ d)
        (step : ℝ), search.maxTrials ≠ 0 → 0 < search.shrink → search.shrink < 1 → 0 < step →
      let found := (p.backtrack search penalty β grad step).value
      1 ≤ found.trials →
        found.step = step * search.shrink ^ (found.trials - 1) ∧
          0 < found.step ∧ found.step ≤ step := by
  refine ⟨?_, ?_⟩
  · intro α _ d p search penalty β grad step hmax found η passes
    cases hslope : grad.dot grad == 0 with
    | true =>
        have hfound : found = ⟨step, true, 0⟩ :=
          congrArg Logged.value (p.backtrack_of_flat search penalty β grad step hslope)
        refine ⟨fun _ => hfound, Bool.noConfusion, ?_⟩
        rw [hfound]
        exact Nat.zero_le _
    | false =>
        have htried := p.exists_trial_eq_step search penalty β grad step hslope hmax
        refine ⟨Bool.noConfusion, fun _ => ⟨?_, ?_, htried⟩, ?_⟩
        · intro i hi hpass hfail
          exact p.backtrack_of_passes search penalty β grad step hslope hi hpass hfail
        · intro hfail
          exact p.backtrack_of_fails search penalty β grad step hslope hfail
        · obtain ⟨i, hi, htrials, -⟩ := htried
          exact htrials.trans_le hi
  · intro d p search penalty β grad step hmax hshrink hone hstep found hpos
    have hslope : (grad.dot grad == 0) = false := by
      rw [Bool.eq_false_iff]
      intro hflat
      have hzero := (p.trials_eq_zero_iff search penalty β grad step hmax).2 hflat
      exact absurd hzero (Nat.ne_of_gt hpos)
    obtain ⟨i, -, htrials, hfound⟩ :=
      p.exists_trial_eq_step search penalty β grad step hslope hmax
    have hpow : search.shrink ^ i ≤ 1 := pow_le_one₀ hshrink.le hone.le
    rw [search.trial_eq] at hfound
    refine ⟨?_, ?_, ?_⟩
    · rw [hfound, htrials, Nat.add_sub_cancel]
    · rw [hfound]
      exact mul_pos hstep (pow_pos hshrink i)
    · rw [hfound]
      exact mul_le_of_le_one_right hstep.le hpow

/-- From a minimum no step along a slope that is not there is any good: all three trials fail. -/
theorem backtrack_first_or_last_balanced :
    (Problem.balanced.backtrack ⟨1 / 2, 1 / 2, 3⟩ (1 / 10) 0 (Vec.replicate 1 1) 1).value =
      ⟨1 / 4, false, 3⟩ := by
  let search : Backtracking ℝ := ⟨1 / 2, 1 / 2, 3⟩
  let grad : Vec ℝ 1 := Vec.replicate 1 1
  have hone : grad.dot grad = 1 := by simp [grad, Vec.dot_eq_sum]
  have hslope : (grad.dot grad == 0) = false := by
    rw [hone, Bool.eq_false_iff]
    exact fun h => one_ne_zero ((beq_iff_eq_real _ _).1 h)
  have hfail : ∀ i < 3, ¬Problem.balanced.Passes search (1 / 10) 0 grad (search.trial 1 i) := by
    intro i _ hpass
    have hpos : 0 < search.trial 1 i :=
      search.trial_induction (fun η hη => mul_pos hη one_half_pos) one_pos i
    have hdec : Problem.balanced.objective (1 / 10) (0 - grad * search.trial 1 i) <
        Problem.balanced.objective (1 / 10) 0 - 1 / 2 * search.trial 1 i * grad.dot grad := hpass
    have hmin := Problem.balanced_minimum (1 / 10) (by norm_num) (0 - grad * search.trial 1 i)
    rw [hone] at hdec
    linarith
  have hlast : search.trial 1 2 = 1 / 4 := by
    rw [search.trial_eq]
    norm_num [search]
  have h := ((backtrack_first_or_last.1 Problem.balanced search (1 / 10) 0 grad 1
    three_ne_zero).2.1 hslope).2.1 hfail
  rw [← hlast]
  exact h

/-! ## Where it cannot stall -/

namespace Problem

variable {d : Nat} (p : Problem ℝ d) {search : Backtracking ℝ} {penalty step bound : ℝ}
  {β grad : Vec ℝ d}

/-- Where all small steps pass and the last trial is one of them the search is accepted, and with
a step that is at most one factor smaller than need be. -/
theorem accepted_of_last_trial_lt
    (hpass : ∀ η, 0 < η → η < bound → p.Passes search penalty β grad η)
    (hslope : (grad.dot grad == 0) = false) (hmax : search.maxTrials ≠ 0)
    (hstep : 0 < step) (hshrink : 0 < search.shrink)
    (hlast : step * search.shrink ^ (search.maxTrials - 1) < bound) :
    let found := (p.backtrack search penalty β grad step).value
    found.accepted = true ∧ min step (search.shrink * bound) ≤ found.step := by
  have htrial : ∀ i, 0 < search.trial step i :=
    search.trial_induction (fun η hη => mul_pos hη hshrink) hstep
  have hlarge : ∀ i, ¬p.Passes search penalty β grad (search.trial step i) →
      bound ≤ search.trial step i :=
    fun i hfail => not_lt.1 fun hlt => hfail (hpass _ (htrial i) hlt)
  rcases p.backtrack_cases search penalty β grad step hslope with
    ⟨i, -, -, hfail, hfound⟩ | ⟨hfail, -⟩
  · rw [hfound]
    refine ⟨rfl, ?_⟩
    cases i with
    | zero => exact min_le_left _ _
    | succ i =>
        -- The trial before the accepted one failed, so that it was no shorter than the bound.
        have hbefore := hlarge i (hfail i (Nat.lt_succ_self i))
        calc
          min step (search.shrink * bound) ≤ search.shrink * bound := min_le_right _ _
          _ ≤ search.shrink * search.trial step i := mul_le_mul_of_nonneg_left hbefore hshrink.le
          _ = search.trial step (i + 1) := mul_comm _ _
  · have hge := hlarge _ (hfail (search.maxTrials - 1) (by omega))
    rw [search.trial_eq] at hge
    exact absurd hlast hge.not_gt

/-- The same for the search along the gradient, by the curvature. -/
theorem accepted_of_curvature {L : ℝ} (hpos : 0 < L) (hL : p.CurvatureLE penalty L)
    (hgrad : p.gradient penalty β ≠ 0) (hmax : search.maxTrials ≠ 0) (hstep : 0 < step)
    (hshrink : 0 < search.shrink)
    (hlast : step * search.shrink ^ (search.maxTrials - 1) < 2 * (1 - search.decrease) / L) :
    let found := (p.backtrack search penalty β (p.gradient penalty β) step).value
    found.accepted = true ∧
      min step (search.shrink * (2 * (1 - search.decrease) / L)) ≤ found.step := by
  refine p.accepted_of_last_trial_lt (fun η hη hsmall => ?_) (Course.beq_of_grad_ne_zero hgrad)
    hmax hstep hshrink hlast
  rw [lt_div_iff₀' hpos] at hsmall
  exact p.decrease_of_curvature penalty hL hη hsmall hgrad

end Problem

theorem Course.accepted_of_curvature {d : Nat} (c : Course ℝ d) (hc : c.params.Sound) {L : ℝ}
    (hpos : 0 < L) (hL : c.problem.CurvatureLE c.params.penalty L)
    (hlast : c.params.step * c.params.search.shrink ^ (c.params.search.maxTrials - 1) <
      2 * (1 - c.params.search.decrease) / L) (k : Nat) : (c.found k).accepted = true := by
  by_cases hgrad : c.gradientAt (c.origin k) = 0
  · rw [c.found_of_grad_zero hgrad]
  · rw [found_eq]
    exact (c.problem.accepted_of_curvature hpos hL hgrad hc.maxTrials_ne_zero hc.step_pos
      hc.shrink_pos hlast).1

/-- Let `L` bound the curvature of the objective in every direction, and let the last trial that
a search may make lie below `2 * (1 - decrease) / L`. Then every search from a point with a
gradient is accepted, with a step that is the first trial or no less than this bound shrunk once;
and no iteration of a run is ever reported to have stalled, in neither scheme and from wherever
it starts. -/
theorem Solver.never_stalled (solver : Solver ℝ) {x : Table ℝ} {y : List ℝ}
    {p : Problem ℝ x.width} (hp : Problem.ofData x y = .ok p) {L : ℝ} (hpos : 0 < L)
    (hcurv : ∀ v : Vec ℝ x.width,
      (x.rows.map fun row => row.dot v ^ 2).sum / (4 * x.height) +
        2 * solver.params.penalty * v.dot v ≤ L * v.dot v)
    (hlast : solver.params.step *
        solver.params.search.shrink ^ (solver.params.search.maxTrials - 1) <
      2 * (1 - solver.params.search.decrease) / L) :
    let params := solver.params
    (∀ (β g : Vec ℝ x.width), gradient x y β.toList params.penalty = .ok g → g ≠ 0 →
      ∃ found, lineSearch x y β.toList params.penalty params.step params.search = .ok found ∧
        found.value.accepted = true ∧
        min params.step (params.search.shrink * (2 * (1 - params.search.decrease) / L)) ≤
          found.value.step) ∧
    (∀ β : Vec ℝ x.width, ∃ events, solver.descentEvents x y β.toList = .ok events ∧
      ∀ k, ¬Stalled events k) ∧
    ∀ β θ : Vec ℝ x.width, ∃ events,
      solver.accelerationEvents x y β.toList θ.toList = .ok events ∧ ∀ k, ¬Stalled events k := by
  intro params
  have hL : p.CurvatureLE params.penalty L := (Problem.curvatureLE_iff_of_ofData hp).2 hcurv
  have hsound := solver.sound
  refine ⟨?_, ?_, ?_⟩
  · intro β g hg hne
    rw [gradient_eq hp solver.checkPenalty_params] at hg
    obtain rfl := Except.ok.inj hg
    exact ⟨_, lineSearch_eq hp solver β, p.accepted_of_curvature hpos hL hne
      hsound.maxTrials_ne_zero hsound.step_pos hsound.shrink_pos hlast⟩
  · intro β
    refine ⟨_, descentEvents_eq hp solver β, Course.not_stalled_of_accepted _ fun k _ => ?_⟩
    exact Course.accepted_of_curvature _ hsound hpos hL hlast k
  · intro β θ
    refine ⟨_, accelerationEvents_eq hp solver β θ, Course.not_stalled_of_accepted _ fun k _ => ?_⟩
    exact Course.accepted_of_curvature _ hsound hpos hL hlast k

/-- A first trial that is too long for the balanced problem is shrunk until it passes. -/
theorem never_stalled_balanced :
    ∃ solver : Solver ℝ, solver.params = .standard (1 / 10) 10 5 ∧
      (∃ found, lineSearch Problem.balanced.table Problem.balanced.responses [5] (1 / 10) 10
          .standard = .ok found ∧ found.value.accepted = true ∧ 16 / 9 ≤ found.value.step) ∧
      (∃ events, solver.descentEvents Problem.balanced.table Problem.balanced.responses
          [5] = .ok events ∧ ∀ k, ¬Stalled events k) ∧
      ∃ events, solver.accelerationEvents Problem.balanced.table
          Problem.balanced.responses [5] [2] = .ok events ∧ ∀ k, ¬Stalled events k := by
  have hp := Problem.balanced.ofData_table
  have hpen : (0 : ℝ) ≤ 1 / 10 := by norm_num
  have haccepted : (Params.standard (1 / 10 : ℝ) 10 5).check = .ok () :=
    Params.check_eq_ok_iff.2 (Params.sound_standard hpen Nat.ofNat_pos 5)
  have hdecrease : (Backtracking.standard : Backtracking ℝ).decrease = 1 / 2 :=
    Solver.decrease_tenth
  have hshrink : (Backtracking.standard : Backtracking ℝ).shrink = 4 / 5 := by
    show (0.8 : ℝ) = 4 / 5
    norm_num
  have hlast : (10 : ℝ) * (Backtracking.standard : Backtracking ℝ).shrink ^ 99 <
      2 * (1 - (Backtracking.standard : Backtracking ℝ).decrease) / (1 / 4 + 2 * (1 / 10)) := by
    rw [hdecrease, hshrink]
    norm_num
  have hgrad : Problem.balanced.gradient (1 / 10) (Vec.replicate 1 5) ≠ 0 := by
    intro hzero
    have hget := Problem.get_gradient_balanced (1 / 10) (Vec.replicate 1 5)
    have hpos := Real.sigmoid_pos 5
    rw [hzero, Vec.get_zero, Vec.get_replicate, logisticWeight_eq] at hget
    linarith
  refine ⟨⟨_, haccepted⟩, rfl, ?_⟩
  obtain ⟨hsearch, hplain, haccelerated⟩ := Solver.never_stalled ⟨_, haccepted⟩ hp
    (show (0 : ℝ) < 1 / 4 + 2 * (1 / 10) by norm_num)
    ((Problem.curvatureLE_iff_of_ofData hp).1 (Problem.curvatureLE_balanced (1 / 10))) hlast
  obtain ⟨found, hfound, hpassed, hstep⟩ := hsearch (Vec.replicate 1 5) _
    (gradient_eq hp (checkPenalty_eq_ok_iff.2 hpen) _) hgrad
  refine ⟨⟨found, hfound, hpassed, ?_⟩, hplain (Vec.replicate 1 5),
    haccelerated (Vec.replicate 1 5) (Vec.replicate 1 2)⟩
  have hleast : min (10 : ℝ) (4 / 5 * (2 * (1 - 1 / 2) / (1 / 4 + 2 * (1 / 10)))) = 16 / 9 := by
    norm_num
  rw [← hleast, ← hdecrease, ← hshrink]
  exact hstep

end RidgeLogistic
