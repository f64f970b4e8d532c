import RidgeLogistic.Proofs.Checked
import RidgeLogistic.Proofs.Exact

/-!
# Accepted parameters

Over exact arithmetic every number is finite and every comparison decides, so that the
checks of the parameters ask for their ranges and for nothing else. `Params.Sound` names
these ranges; what is proved of a run takes them from there.
-/

namespace RidgeLogistic

/-- What accepted parameters satisfy over exact arithmetic. -/
structure Params.Sound (params : Params ℝ) : Prop where
  penalty_nonneg : 0 ≤ params.penalty
  step_pos : 0 < params.step
  decrease_pos : 0 < params.search.decrease
  decrease_le_half : params.search.decrease ≤ 1 / 2
  shrink_pos : 0 < params.search.shrink
  shrink_lt_one : params.search.shrink < 1
  maxTrials_ne_zero : params.search.maxTrials ≠ 0

theorem checkPenalty_eq_ok_iff {penalty : ℝ} :
    checkPenalty penalty = .ok () ↔ 0 ≤ penalty := by
  have hfinite : Scalar.isFinite penalty = true := rfl
  rw [checkPenalty]
  split
  · next h => exact ⟨fun _ => h.1, fun _ => rfl⟩
  · next h => exact ⟨fun hok => by injection hok, fun hpen => absurd ⟨hpen, hfinite⟩ h⟩

theorem checkStep_eq_ok_iff {step : ℝ} : checkStep step = .ok () ↔ 0 < step := by
  have hfinite : Scalar.isFinite step = true := rfl
  rw [checkStep]
  split
  · next h => exact ⟨fun _ => h.1, fun _ => rfl⟩
  · next h => exact ⟨fun hok => by injection hok, fun hstep => absurd ⟨hstep, hfinite⟩ h⟩

theorem Backtracking.check_eq_ok_iff {search : Backtracking ℝ} :
    search.check = .ok () ↔
      (0 < search.decrease ∧ search.decrease ≤ 1 / 2) ∧
        (0 < search.shrink ∧ search.shrink < 1) ∧ search.maxTrials ≠ 0 := by
  have hhalf : ((0.5 : ℝ)) = 1 / 2 := by norm_num
  rw [← hhalf, check]
  split
  · next h => exact ⟨fun hok => by injection hok, fun hgood => absurd hgood.1 h⟩
  · next hdec =>
      split
      · next h => exact ⟨fun hok => by injection hok, fun hgood => absurd hgood.2.1 h⟩
      · next hshrink =>
          split
          · next h => exact ⟨fun hok => by injection hok, fun hgood => absurd h hgood.2.2⟩
          · next hmax =>
              exact ⟨fun _ => ⟨not_not.1 hdec, not_not.1 hshrink, hmax⟩, fun _ => rfl⟩

theorem Params.check_eq_ok_iff {params : Params ℝ} : params.check = .ok () ↔ params.Sound := by
  constructor
  · intro h
    let solver : Solver ℝ := ⟨params, h⟩
    obtain ⟨hdec, hshrink, hmax⟩ := Backtracking.check_eq_ok_iff.1 solver.check_search
    exact {
      penalty_nonneg := checkPenalty_eq_ok_iff.1 solver.checkPenalty_params
      step_pos := checkStep_eq_ok_iff.1 solver.checkStep_params
      decrease_pos := hdec.1
      decrease_le_half := hdec.2
      shrink_pos := hshrink.1
      shrink_lt_one := hshrink.2
      maxTrials_ne_zero := hmax }
  · intro h
    rw [check, checkPenalty_eq_ok_iff.2 h.penalty_nonneg, checkStep_eq_ok_iff.2 h.step_pos]
    exact Backtracking.check_eq_ok_iff.2
      ⟨⟨h.decrease_pos, h.decrease_le_half⟩, ⟨h.shrink_pos, h.shrink_lt_one⟩,
        h.maxTrials_ne_zero⟩

theorem Params.sound_standard {penalty step : ℝ} (hpen : 0 ≤ penalty) (hstep : 0 < step)
    (iterations : Nat) : (standard penalty step iterations).Sound where
  penalty_nonneg := hpen
  step_pos := hstep
  decrease_pos := show (0 : ℝ) < 0.5 by norm_num
  decrease_le_half := show (0.5 : ℝ) ≤ 1 / 2 by norm_num
  shrink_pos := show (0 : ℝ) < 0.8 by norm_num
  shrink_lt_one := show (0.8 : ℝ) < 1 by norm_num
  maxTrials_ne_zero := show 100 ≠ 0 by norm_num

theorem Solver.sound (solver : Solver ℝ) : solver.params.Sound :=
  Params.check_eq_ok_iff.1 solver.accepted

end RidgeLogistic
