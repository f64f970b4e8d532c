import RidgeLogistic.Proofs.Checked

/-!
# The solvers follow their recurrences

Both solvers judge their data once, on entry, and from then on compute on a problem
without further checks. Seen from outside they are nevertheless plain recurrences in
terms of the checked calls `gradient` and `lineSearch`: at every point of the
trajectory that an iteration starts from, both calls succeed, and the next point is
made from what they answer. No law of the arithmetic is used anywhere.

`Solver.descendWith_recurrence` says it of plain descent and
`Solver.accelerateWith_recurrence` of the accelerated one, each together with the exact
condition under which the run is refused. A refusal is the same for all observers and
carries no state of one: nothing was reported.
-/

namespace RidgeLogistic

variable {α : Type} [Scalar α] {σ : Type}

/-- Plain descent is refused exactly when its data poses no problem or else its starting
point does not fit, with that error. Otherwise it gives a trajectory of one point more
than there are iterations, from the starting point on, in which each point comes from
the one before by the step of a line search along the gradient there. -/
theorem Solver.descendWith_recurrence (solver : Solver α) (x : Table α) (y β : List α)
    (observer : Observer α x.width σ) (state : σ) :
    (∀ fault, solver.descendWith x y β observer state = .error fault ↔
      Problem.ofData x y = .error fault ∨
        (∃ p, Problem.ofData x y = .ok p) ∧ x.point .betaStart β = .error fault) ∧
    (∀ p start, Problem.ofData x y = .ok p → x.point .betaStart β = .ok start →
      ∃ path seen log,
        solver.descendWith x y β observer state = .ok ⟨(path, seen), log⟩ ∧
        path.length = solver.params.iterations + 1 ∧
        path.get? 0 = some start ∧ start.toList = β ∧
        (∀ point ∈ path.points, point.toList.length = x.width) ∧
        ∀ k < solver.params.iterations, ∃ point grad found,
          path.get? k = some point ∧
          gradient x y point.toList solver.params.penalty = .ok grad ∧
          lineSearch x y point.toList solver.params.penalty solver.params.step
            solver.params.search = .ok found ∧
          path.get? (k + 1) = some (point - grad * found.value.step)) := by
  refine ⟨?_, ?_⟩
  · intro fault
    rw [descendWith]
    cases hp : Problem.ofData x y with
    | error e => simp [bind, Except.bind]
    | ok p =>
        cases hβ : x.point .betaStart β with
        | error e => simp [bind, Except.bind]
        | ok start => simp [bind, Except.bind, pure, Except.pure]
  · intro p start hp hβ
    have hlist := Table.toList_of_point hβ
    subst hlist
    obtain ⟨log, hrun⟩ := descendWith_eq hp solver start observer state
    refine ⟨_, _, log, hrun, ?_, ?_, rfl, ?_, ?_⟩
    · exact Trajectory.length_along _ _
    · exact Trajectory.get?_along _ (Nat.zero_le _)
    · intro point _
      exact point.length_toList
    · intro k hk
      have hfound := (solver.plainCourse p start).found_eq k
      have hnext := (solver.plainCourse p start).estimate_succ k
      rw [Course.origin_eq_estimate _ rfl rfl] at hfound hnext
      refine ⟨_, _, _, Trajectory.get?_along _ (Nat.le_of_lt hk),
        gradient_eq hp solver.checkPenalty_params _, lineSearch_eq hp solver _, ?_⟩
      rw [hfound] at hnext
      exact (Trajectory.get?_along _ hk).trans (congrArg some hnext)

/-- Accelerated descent is refused exactly when its data poses no problem, or else the
first estimate or else the first origin does not fit, with that error. Otherwise it
gives two trajectories of one point more than there are iterations. Iteration `k`,
counted from zero, takes the step of a line search along the gradient at origin `k`,
which gives the next estimate; and the next origin lies beyond that, by `k / (k + 3)` of
the way from the last estimate. -/
theorem Solver.accelerateWith_recurrence (solver : Solver α) (x : Table α)
    (y β θ : List α) (observer : Observer α x.width σ) (state : σ) :
    (∀ fault, solver.accelerateWith x y β θ observer state = .error fault ↔
      Problem.ofData x y = .error fault ∨
        (∃ p, Problem.ofData x y = .ok p) ∧
          (x.point .betaStart β = .error fault ∨
            (∃ start, x.point .betaStart β = .ok start) ∧
              x.point .thetaStart θ = .error fault)) ∧
    (∀ p start origin, Problem.ofData x y = .ok p →
      x.point .betaStart β = .ok start → x.point .thetaStart θ = .ok origin →
      ∃ paths seen log,
        solver.accelerateWith x y β θ observer state = .ok ⟨(paths, seen), log⟩ ∧
        paths.estimates.length = solver.params.iterations + 1 ∧
        paths.origins.length = solver.params.iterations + 1 ∧
        paths.estimates.get? 0 = some start ∧ start.toList = β ∧
        paths.origins.get? 0 = some origin ∧ origin.toList = θ ∧
        (∀ point ∈ paths.estimates.points ++ paths.origins.points,
          point.toList.length = x.width) ∧
        ∀ k < solver.params.iterations, ∃ estimate point reached grad found,
          paths.estimates.get? k = some estimate ∧
          paths.origins.get? k = some point ∧
          gradient x y point.toList solver.params.penalty = .ok grad ∧
          lineSearch x y point.toList solver.params.penalty solver.params.step
            solver.params.search = .ok found ∧
          reached = point - grad * found.value.step ∧
          paths.estimates.get? (k + 1) = some reached ∧
          paths.origins.get? (k + 1) =
            some (reached + (reached - estimate) * ((k : α) / ((k : α) + 3.0)))) := by
  refine ⟨?_, ?_⟩
  · intro fault
    rw [accelerateWith]
    cases hp : Problem.ofData x y with
    | error e => simp [bind, Except.bind]
    | ok p =>
        cases hβ : x.point .betaStart β with
        | error e => simp [bind, Except.bind]
        | ok start =>
            cases hθ : x.point .thetaStart θ with
            | error e => simp [bind, Except.bind]
            | ok origin => simp [bind, Except.bind, pure, Except.pure]
  · intro p start origin hp hβ hθ
    have hβlist := Table.toList_of_point hβ
    have hθlist := Table.toList_of_point hθ
    subst hβlist hθlist
    obtain ⟨log, hrun⟩ := accelerateWith_eq hp solver start origin observer state
    refine ⟨_, _, log, hrun, ?_, ?_, ?_, rfl, ?_, rfl, ?_, ?_⟩
    · exact Trajectory.length_along _ _
    · exact Trajectory.length_along _ _
    · exact Trajectory.get?_along _ (Nat.zero_le _)
    · exact Trajectory.get?_along _ (Nat.zero_le _)
    · intro point _
      exact point.length_toList
    · intro k hk
      have hfound := (solver.acceleratedCourse p start origin).found_eq k
      have hreached := (solver.acceleratedCourse p start origin).estimate_succ k
      have hbeyond := (solver.acceleratedCourse p start origin).origin_succ_accelerated rfl k
      rw [hfound] at hreached
      exact ⟨_, _, _, _, _, Trajectory.get?_along _ (Nat.le_of_lt hk),
        Trajectory.get?_along _ (Nat.le_of_lt hk),
        gradient_eq hp solver.checkPenalty_params _, lineSearch_eq hp solver _, hreached,
        Trajectory.get?_along _ hk,
        (Trajectory.get?_along _ hk).trans (congrArg some hbeyond)⟩

end RidgeLogistic
