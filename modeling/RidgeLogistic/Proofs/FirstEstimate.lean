import RidgeLogistic.Proofs.SufficientDecrease

/-!
# The first estimate of an accelerated run

An accelerated run is given two points, and only one of them matters. The estimate of a state
is read in one place, the momentum of the next iteration (`Problem.iterate_congr_estimate`),
and the weight of the momentum is zero in the first one. So over exact arithmetic two runs
that differ in the estimate they begin with are the same run from there on, for whoever
watches and in all records of the log, and their first step is that of plain descent from the
origin.
-/

namespace RidgeLogistic

/-! ## Where an estimate is read -/

section

variable {α : Type} [Scalar α] {d : Nat} {σ : Type}

theorem Problem.iterate_congr_estimate (p : Problem α d) (scheme : Scheme) (params : Params α)
    (observer : Observer α d σ) (left : Nat) {k : Nat} {estimate estimate' : Vec α d}
    (h : ∀ reached, scheme.origin k estimate' reached = scheme.origin k estimate reached)
    (origin : Vec α d) (state : σ) :
    p.iterate scheme params observer left k (p.arrive params.penalty estimate' origin) state =
      p.iterate scheme params observer left k (p.arrive params.penalty estimate origin)
        state := by
  cases left with
  | zero => rfl
  | succ left =>
      -- One iteration is enough: it arrives at the same state from both estimates.
      simp only [iterate, arrive, h]

end

/-! ## Exact arithmetic -/

variable {d : Nat} {σ : Type}

/-- The step after the first iteration starts where that ended, with momentum or without. -/
theorem Scheme.origin_first (scheme : Scheme) (estimate reached : Vec ℝ d) :
    scheme.origin 0 estimate reached = reached := by
  cases scheme with
  | plain => rfl
  | accelerated =>
      refine Vec.ext_get fun j => ?_
      rw [origin_accelerated, Vec.get_add, Vec.get_mul, Nat.cast_zero, zero_div, mul_zero,
        add_zero]

theorem Course.origin_one (c : Course ℝ d) : c.origin 1 = c.estimate 1 :=
  c.scheme.origin_first _ _

/-- The same two trajectories, but for where the estimates start. -/
def Paths.startingAt (paths : Paths ℝ d) (estimate : Vec ℝ d) : Paths ℝ d :=
  { paths with estimates := { paths.estimates with start := estimate } }

theorem Problem.run_startingAt (p : Problem ℝ d) (scheme : Scheme) (params : Params ℝ)
    (observer : Observer ℝ d σ) (estimate estimate' origin : Vec ℝ d) (state : σ) :
    p.run scheme params observer estimate' origin state =
      (fun (paths, seen) => (paths.startingAt estimate', seen)) <$>
        p.run scheme params observer estimate origin state := by
  have hfirst : ∀ reached,
      scheme.origin 0 estimate' reached = scheme.origin 0 estimate reached := by
    intro reached
    rw [scheme.origin_first, scheme.origin_first]
  rw [run, run, p.iterate_congr_estimate _ _ _ _ hfirst, Logged.map_map]
  rfl

/-- Accelerated runs from one origin and any two estimates have the same origins, and the same
estimates from the first iteration on; whoever watches is told the same by both and the log
has the same records. Where there is an iteration at all, both trajectories have the point
after the first one in common, and it is that of plain descent from the origin. -/
theorem Solver.accelerateWith_first_estimate (solver : Solver ℝ) {x : Table ℝ} {y : List ℝ}
    {p : Problem ℝ x.width} (hp : Problem.ofData x y = .ok p) (β β' θ : Vec ℝ x.width)
    (observer : Observer ℝ x.width σ) (state : σ) :
    ∃ paths paths' seen log path seen' log',
      solver.accelerateWith x y β.toList θ.toList observer state =
        .ok ⟨(paths, seen), log⟩ ∧
      solver.accelerateWith x y β'.toList θ.toList observer state =
        .ok ⟨(paths', seen), log⟩ ∧
      solver.descendWith x y θ.toList observer state = .ok ⟨(path, seen'), log'⟩ ∧
      paths'.origins = paths.origins ∧
      paths'.estimates.later = paths.estimates.later ∧
      (0 < solver.params.iterations → ∃ point,
        paths.estimates.get? 1 = some point ∧ paths.origins.get? 1 = some point ∧
        path.get? 1 = some point) := by
  let c := solver.acceleratedCourse p β θ
  let n := solver.params.iterations
  let seen := (observer.notifyAll (c.events n) state).value
  obtain ⟨log', hplain⟩ := descendWith_eq hp solver θ observer state
  obtain ⟨log, hrun⟩ := accelerateWith_eq hp solver β θ observer state
  have hrun' : solver.accelerateWith x y β'.toList θ.toList observer state =
      .ok ⟨((c.paths n).startingAt β', seen), log⟩ := by
    rw [accelerateWith_eq_run hp] at hrun ⊢
    rw [p.run_startingAt .accelerated _ _ β, Except.ok.inj hrun]
    rfl
  refine ⟨_, _, seen, log, _, _, log', hrun, hrun', hplain, rfl, rfl, fun hpos => ?_⟩
  refine ⟨c.estimate 1, Trajectory.get?_along _ hpos, ?_, Trajectory.get?_along _ hpos⟩
  rw [← c.origin_one]
  exact Trajectory.get?_along _ hpos

/-- Estimates far apart, and the first step from their common origin. -/
theorem Solver.accelerateWith_first_estimate_balanced :
    ∃ paths paths' log,
      Solver.tenth.accelerateWith Problem.balanced.table Problem.balanced.responses [5] [2]
        .silent () = .ok ⟨(paths, ()), log⟩ ∧
      Solver.tenth.accelerateWith Problem.balanced.table Problem.balanced.responses [-70] [2]
        .silent () = .ok ⟨(paths', ()), log⟩ ∧
      paths'.origins = paths.origins ∧
      paths'.estimates.later = paths.estimates.later ∧
      ∃ point, paths.estimates.get? 1 = some point ∧ paths.origins.get? 1 = some point := by
  obtain ⟨paths, paths', _, log, _, _, _, hrun, hrun', -, horigins, hlater, hpoint⟩ :=
    Solver.tenth.accelerateWith_first_estimate Problem.balanced.ofData_table
      (Vec.replicate 1 5) (Vec.replicate 1 (-70)) (Vec.replicate 1 2) .silent ()
  obtain ⟨point, hestimate, horigin, -⟩ := hpoint (show 0 < 5 by norm_num)
  exact ⟨paths, paths', log, hrun, hrun', horigins, hlater, point, hestimate, horigin⟩

end RidgeLogistic
