import RidgeLogistic.Backtracking

/-!
# What a search finds

Facts about the backtracking search, for any arithmetic. The steps that it tries are those of
one sequence, `Backtracking.trial`, and the search ends at the first of them that passes its
test, or at the last that it may try. `Backtracking.tryFrom_cases` says so, the records of the
trials that failed included: it is all that a search can do, and everything else here reads it.

`Problem.backtrack_cases` is the same for a search along a vector, whose test is
`Problem.Passes`. A vector of length zero needs no trial.
-/

namespace RidgeLogistic

variable {α : Type} [Scalar α] {d : Nat}

namespace Backtracking

variable (search : Backtracking α) (objectiveAt bound : α → α)

/-- The step that is tried after `i` others failed. -/
def trial (step : α) : Nat → α
  | 0 => step
  | i + 1 => trial step i * search.shrink

theorem trial_shrunk (step : α) (i : Nat) :
    search.trial (step * search.shrink) i = search.trial step (i + 1) := by
  induction i with
  | zero => rfl
  | succ i ih => rw [trial, ih]; rfl

/-- What holds of the first trial and survives shrinking holds of every trial. -/
theorem trial_induction {P : α → Prop} (hshrink : ∀ η, P η → P (η * search.shrink)) {step : α}
    (hstep : P step) (i : Nat) : P (search.trial step i) := by
  induction i with
  | zero => exact hstep
  | succ i ih => exact hshrink _ ih

/-- The records of the first `n` trials, all of which failed. -/
def rejections (step : α) (n : Nat) : List (Record α) :=
  (List.range n).map fun i => .rejected (search.trial step i) (objectiveAt (search.trial step i))

theorem rejections_succ (step : α) (n : Nat) :
    search.rejections objectiveAt step (n + 1) =
      .rejected step (objectiveAt step) ::
        search.rejections objectiveAt (step * search.shrink) n := by
  rw [rejections, List.range_succ_eq_map, List.map_cons, List.map_map, rejections]
  simp only [trial_shrunk]
  rfl

/-- Trial `i` passes the test. -/
def PassesAt (step : α) (i : Nat) : Prop :=
  objectiveAt (search.trial step i) < bound (search.trial step i)

theorem passesAt_shrunk (step : α) (i : Nat) :
    search.PassesAt objectiveAt bound (step * search.shrink) i ↔
      search.PassesAt objectiveAt bound step (i + 1) := by
  rw [PassesAt, PassesAt, trial_shrunk]

variable {search objectiveAt bound} in
theorem not_passesAt_of_lt_succ {step : α} {n : Nat}
    (hfirst : ¬search.PassesAt objectiveAt bound step 0)
    (hrest : ∀ j < n, ¬search.PassesAt objectiveAt bound (step * search.shrink) j) :
    ∀ j < n + 1, ¬search.PassesAt objectiveAt bound step j := by
  intro j hj
  cases j with
  | zero => exact hfirst
  | succ j =>
      rw [← passesAt_shrunk]
      exact hrest j (by omega)

/-- A search is accepted at the first trial that passes, or all that it may make failed. -/
theorem tryFrom_cases (left tried : Nat) (step : α) :
    (∃ i < left, search.PassesAt objectiveAt bound step i ∧
      (∀ j < i, ¬search.PassesAt objectiveAt bound step j) ∧
      search.tryFrom objectiveAt bound left tried step =
        ⟨{ step := search.trial step i, accepted := true, trials := tried + i + 1 },
          search.rejections objectiveAt step i⟩) ∨
    (∀ i < left, ¬search.PassesAt objectiveAt bound step i) ∧
      search.tryFrom objectiveAt bound left tried step =
        ⟨{ step := search.trial step (left - 1), accepted := false, trials := tried + left },
          search.rejections objectiveAt step left⟩ := by
  induction left generalizing tried step with
  | zero => exact Or.inr ⟨fun i hi => absurd hi (Nat.not_lt_zero i), rfl⟩
  | succ left ih =>
      rw [tryFrom]
      by_cases hfirst : objectiveAt step < bound step
      · refine Or.inl ⟨0, Nat.succ_pos left, hfirst, ?_, ?_⟩
        · exact fun j hj => absurd hj (Nat.not_lt_zero j)
        · rw [if_pos hfirst]
          rfl
      · rw [if_neg hfirst]
        cases left with
        | zero =>
            refine Or.inr ⟨not_passesAt_of_lt_succ hfirst ?_, rfl⟩
            exact fun j hj => absurd hj (Nat.not_lt_zero j)
        | succ left =>
            rw [if_neg (Nat.succ_ne_zero left)]
            rcases ih (tried + 1) (step * search.shrink) with
              ⟨i, hi, hpass, hfail, hrest⟩ | ⟨hfail, hrest⟩
            · refine Or.inl ⟨i + 1, Nat.succ_lt_succ hi, ?_, ?_, ?_⟩
              · exact (passesAt_shrunk ..).1 hpass
              · exact not_passesAt_of_lt_succ hfirst hfail
              · have htrials : tried + 1 + i + 1 = tried + (i + 1) + 1 := by omega
                rw [hrest, htrials, trial_shrunk, rejections_succ]
                rfl
            · refine Or.inr ⟨not_passesAt_of_lt_succ hfirst hfail, ?_⟩
              have htrials : tried + 1 + (left + 1) = tried + (left + 1 + 1) := by omega
              rw [hrest, htrials, trial_shrunk, search.rejections_succ _ step]
              rfl

end Backtracking

namespace Problem

variable (p : Problem α d) (search : Backtracking α) (penalty : α)
variable (β grad : Vec α d) (step : α)

/-- A step along `grad` decreases the objective as a search asks for. -/
def Passes (η : α) : Prop :=
  p.objective penalty (β - grad * η) <
    p.objective penalty β - search.decrease * η * grad.dot grad

theorem backtrack_of_flat (hflat : (grad.dot grad == 0) = true) :
    p.backtrack search penalty β grad step = pure ⟨step, true, 0⟩ := by
  rw [backtrack]
  exact if_pos hflat

/-- All that a search can do where there is a slope to descend along. -/
theorem backtrack_cases (hslope : (grad.dot grad == 0) = false) :
    (∃ i < search.maxTrials, p.Passes search penalty β grad (search.trial step i) ∧
      (∀ j < i, ¬p.Passes search penalty β grad (search.trial step j)) ∧
      p.backtrack search penalty β grad step =
        ⟨{ step := search.trial step i, accepted := true, trials := i + 1 },
          search.rejections (fun η => p.objective penalty (β - grad * η)) step i⟩) ∨
    (∀ i < search.maxTrials, ¬p.Passes search penalty β grad (search.trial step i)) ∧
      p.backtrack search penalty β grad step =
        ⟨{ step := search.trial step (search.maxTrials - 1), accepted := false,
            trials := search.maxTrials },
          search.rejections (fun η => p.objective penalty (β - grad * η)) step
            search.maxTrials⟩ := by
  have hneg : ¬(grad.dot grad == 0) = true := by rw [hslope]; exact Bool.noConfusion
  have hcases := search.tryFrom_cases (fun η => p.objective penalty (β - grad * η))
    (fun η => p.objective penalty β - search.decrease * η * grad.dot grad)
    search.maxTrials 0 step
  simp only [Nat.zero_add] at hcases
  rw [backtrack]
  dsimp only
  rw [if_neg hneg]
  exact hcases

/-- An accepted search ends with a step of sufficient decrease, unless there is no slope
to descend along. -/
theorem backtrack_accepted (hslope : (grad.dot grad == 0) = false)
    (h : (p.backtrack search penalty β grad step).value.accepted = true) :
    let η := (p.backtrack search penalty β grad step).value.step
    p.objective penalty (β - grad * η) <
      p.objective penalty β - search.decrease * η * grad.dot grad := by
  rcases p.backtrack_cases search penalty β grad step hslope with
    ⟨i, -, hpass, -, hfound⟩ | ⟨-, hfound⟩
  · rw [hfound]
    exact hpass
  · rw [hfound] at h
    exact Bool.noConfusion h

theorem backtrack_step_induction {P : α → Prop}
    (hshrink : ∀ η, P η → P (η * search.shrink)) (hstep : P step) :
    P (p.backtrack search penalty β grad step).value.step := by
  cases hslope : grad.dot grad == 0 with
  | true =>
      rw [p.backtrack_of_flat _ _ _ _ _ hslope]
      exact hstep
  | false =>
      rcases p.backtrack_cases search penalty β grad step hslope with
        ⟨i, -, -, -, hfound⟩ | ⟨-, hfound⟩
      · rw [hfound]
        exact search.trial_induction hshrink hstep i
      · rw [hfound]
        exact search.trial_induction hshrink hstep _

/-- A first trial of sufficient decrease is the only one. -/
theorem backtrack_of_first (hslope : (grad.dot grad == 0) = false)
    (hmax : search.maxTrials ≠ 0)
    (h : p.objective penalty (β - grad * step) <
      p.objective penalty β - search.decrease * step * grad.dot grad) :
    p.backtrack search penalty β grad step = pure ⟨step, true, 1⟩ := by
  rcases p.backtrack_cases search penalty β grad step hslope with
    ⟨i, -, -, hfail, hfound⟩ | ⟨hfail, -⟩
  · cases i with
    | zero => exact hfound
    | succ i => exact absurd h (hfail 0 (Nat.succ_pos i))
  · exact absurd h (hfail 0 (Nat.pos_of_ne_zero hmax))

end Problem

end RidgeLogistic
