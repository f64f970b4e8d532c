import RidgeLogistic.Proofs.FirstEstimate

/-!
# Points without a gradient

Where the gradient is zero no step leads anywhere. Over exact arithmetic a run that comes to start
a step at such a point stays there, unless there is momentum left that carries it on. Of the two
points that a state consists of, the origin has to be the point without a gradient, and the
estimate has to be there too, or not to count, as in the first iteration; then the state rests
(`Course.RestsAt`).

That the next state rests as well takes the exception that a search makes for a flat gradient. No
step from such a point passes the test of sufficient decrease, so that a search which tried its
steps there would stall. The one iteration is `Course.RestsAt.succ`, and from it the induction
takes all that follow (`Course.RestsAt.of_le`). Plain descent rests wherever it comes to a point
without a gradient, since its states have no other momentum, and accelerated descent where it
begins at one, wherever its first estimate is (`Solver.stationary_absorbing`).
-/

namespace RidgeLogistic

variable {d : Nat} {σ : Type}

/-- An iteration that stays in place leaves no momentum. -/
theorem Scheme.origin_self (scheme : Scheme) (k : Nat) (point : Vec ℝ d) :
    scheme.origin k point point = point := by
  cases scheme with
  | plain => rfl
  | accelerated =>
      refine Vec.ext_get fun i => ?_
      rw [origin_accelerated, Vec.get_add, Vec.get_mul, Vec.get_sub, sub_self, zero_mul, add_zero]

namespace Course

variable {c : Course ℝ d} {z : Vec ℝ d} {k j : Nat}

/-- Iteration `k` starts its step at a point without a gradient, and finds no momentum. -/
structure RestsAt (c : Course ℝ d) (z : Vec ℝ d) (k : Nat) : Prop where
  origin_eq : c.origin k = z
  gradient_eq_zero : c.gradientAt z = 0
  no_momentum : k = 0 ∨ c.estimate k = z

namespace RestsAt

theorem found_eq (h : c.RestsAt z k) : c.found k = ⟨c.params.step, true, 0⟩ := by
  refine c.found_of_grad_zero ?_
  rw [h.origin_eq]
  exact h.gradient_eq_zero

theorem estimate_succ (h : c.RestsAt z k) : c.estimate (k + 1) = z := by
  rw [← h.origin_eq]
  refine c.estimate_succ_of_grad_zero ?_
  rw [h.origin_eq]
  exact h.gradient_eq_zero

/-- One iteration at rest leads to the same rest. -/
theorem succ (h : c.RestsAt z k) : c.RestsAt z (k + 1) where
  origin_eq := by
    rw [origin_succ, h.estimate_succ]
    rcases h.no_momentum with rfl | hestimate
    · exact c.scheme.origin_first _ _
    · rw [hestimate, c.scheme.origin_self]
  gradient_eq_zero := h.gradient_eq_zero
  no_momentum := Or.inr h.estimate_succ

theorem of_le (h : c.RestsAt z k) (hkj : k ≤ j) : c.RestsAt z j := by
  induction j, hkj using Nat.le_induction with
  | base => exact h
  | succ j _ ih => exact ih.succ

theorem accepted (h : c.RestsAt z k) : (c.found k).accepted = true := by
  rw [h.found_eq]

/-- What is reported of an iteration at rest: a step of the first trial's size that leads
nowhere, and no stall. -/
theorem reported (h : c.RestsAt z k) (n : Nat) :
    ¬Stalled (c.events n).toArray (k + 1) ∧
    (k < n →
      .stepped c.scheme.title (k + 1) z c.params.step ∈ (c.events n).toArray ∧
      ∀ η, SteppedBy (c.events n).toArray (k + 1) η → η = c.params.step) := by
  have hstep : (c.found k).step = c.params.step := by rw [h.found_eq]
  refine ⟨?_, fun hk => ⟨?_, fun η hη => ?_⟩⟩
  · rw [stalled_events_iff, h.accepted]
    exact fun hstalled => Bool.noConfusion hstalled.2
  · have hmem := c.stepped_mem_events hk
    rwa [h.estimate_succ, hstep] at hmem
  · rw [← hstep]
    exact (c.steppedBy_events_iff.1 hη).2

end RestsAt

/-- In plain descent any point without a gradient is one to rest at. -/
theorem restsAt_estimate (hs : c.scheme = .plain) (h₀ : c.origin₀ = c.estimate₀)
    (hgrad : c.gradientAt (c.estimate k) = 0) : c.RestsAt (c.estimate k) k where
  origin_eq := c.origin_eq_estimate hs h₀ k
  gradient_eq_zero := hgrad
  no_momentum := Or.inr rfl

/-- The first iteration has no momentum, so that the origin alone decides whether it rests. -/
theorem restsAt_zero (h₀ : c.origin₀ = z) (hgrad : c.gradientAt z = 0) : c.RestsAt z 0 where
  origin_eq := h₀
  gradient_eq_zero := hgrad
  no_momentum := Or.inl rfl

end Course

theorem lineSearch_of_gradient_eq_zero {x : Table ℝ} {y : List ℝ} {p : Problem ℝ x.width}
    (hp : Problem.ofData x y = .ok p) (solver : Solver ℝ) {β : Vec ℝ x.width}
    (hgrad : p.gradient solver.params.penalty β = 0) :
    lineSearch x y β.toList solver.params.penalty solver.params.step solver.params.search =
      .ok (pure ⟨solver.params.step, true, 0⟩) := by
  rw [lineSearch_eq hp, p.backtrack_of_flat _ _ _ _ _ ((flat_iff _).2 hgrad)]

/-- Once plain descent comes to a point without a gradient, that is the point after every later
iteration. Each of them takes the first trial as its step, for which the search there makes no
trial and no record, and no stall is reported of it. Accelerated descent that starts its first
step at such a point has it for every origin and for every estimate but the first, which may be
anywhere, with the same steps and no stall at all. -/
theorem Solver.stationary_absorbing (solver : Solver ℝ) {x : Table ℝ} {y : List ℝ}
    {p : Problem ℝ x.width} (hp : Problem.ofData x y = .ok p) (β θ : Vec ℝ x.width)
    (observer : Observer ℝ x.width σ) (state : σ) :
    let params := solver.params
    let Flat : Vec ℝ x.width → Prop := fun point =>
      gradient x y point.toList params.penalty = .ok 0
    (∀ point, Flat point →
      lineSearch x y point.toList params.penalty params.step params.search =
        .ok (pure ⟨params.step, true, 0⟩)) ∧
    (∃ path seen log events,
      solver.descendWith x y β.toList observer state = .ok ⟨(path, seen), log⟩ ∧
      solver.descentEvents x y β.toList = .ok events ∧
      ∀ k point, path.get? k = some point → Flat point → ∀ j, k ≤ j →
        (j ≤ params.iterations → path.get? j = some point) ∧
        ¬Stalled events (j + 1) ∧
        (j < params.iterations →
          .stepped Scheme.plain.title (j + 1) point params.step ∈ events ∧
          ∀ η, SteppedBy events (j + 1) η → η = params.step)) ∧
    (Flat θ → ∃ paths seen log events,
      solver.accelerateWith x y β.toList θ.toList observer state = .ok ⟨(paths, seen), log⟩ ∧
      solver.accelerationEvents x y β.toList θ.toList = .ok events ∧
      (∀ j ≤ params.iterations, paths.origins.get? j = some θ) ∧
      (∀ j, 1 ≤ j → j ≤ params.iterations → paths.estimates.get? j = some θ) ∧
      (∀ j, ¬Stalled events j) ∧
      ∀ j < params.iterations,
        .stepped Scheme.accelerated.title (j + 1) θ params.step ∈ events ∧
        ∀ η, SteppedBy events (j + 1) η → η = params.step) := by
  intro params Flat
  have hflat : ∀ point, Flat point → p.gradient params.penalty point = 0 := by
    intro point h
    exact Except.ok.inj ((gradient_eq hp solver.checkPenalty_params point).symm.trans h)
  refine ⟨fun point h => lineSearch_of_gradient_eq_zero hp solver (hflat point h), ?_, ?_⟩
  · let c := solver.plainCourse p β
    obtain ⟨log, hrun⟩ := descendWith_eq hp solver β observer state
    refine ⟨_, _, log, _, hrun, descentEvents_eq hp solver β, ?_⟩
    intro k point hpoint hgrad j hkj
    obtain ⟨-, rfl⟩ : k ≤ params.iterations ∧ c.estimate k = point :=
      (Trajectory.get?_along_eq_some_iff _).1 hpoint
    have hzero : c.gradientAt (c.estimate k) = 0 := hflat _ hgrad
    have hrest : c.RestsAt (c.estimate k) k := Course.restsAt_estimate rfl rfl hzero
    obtain ⟨hstall, hstep⟩ := (hrest.of_le hkj).reported params.iterations
    refine ⟨fun hj => ?_, hstall, hstep⟩
    rw [← (hrest.of_le hkj).origin_eq, c.origin_eq_estimate rfl rfl]
    exact Trajectory.get?_along _ hj
  · intro hgrad
    let c := solver.acceleratedCourse p β θ
    have hzero : c.gradientAt θ = 0 := hflat θ hgrad
    have hrest : ∀ j, c.RestsAt θ j := fun j => (Course.restsAt_zero rfl hzero).of_le j.zero_le
    obtain ⟨log, hrun⟩ := accelerateWith_eq hp solver β θ observer state
    refine ⟨_, _, log, _, hrun, accelerationEvents_eq hp solver β θ, ?_, ?_, ?_, ?_⟩
    · intro j hj
      exact (Trajectory.get?_along c.origin hj).trans (congrArg some (hrest j).origin_eq)
    · intro j hpos hj
      obtain ⟨i, rfl⟩ := Nat.exists_eq_add_of_le' hpos
      exact (Trajectory.get?_along c.estimate hj).trans (congrArg some (hrest i).estimate_succ)
    · exact c.not_stalled_of_accepted fun j _ => (hrest j).accepted
    · intro j hj
      exact ((hrest j).reported params.iterations).2 hj

/-- From the minimum both schemes stay there, also where the first estimate is far from it. -/
theorem Solver.stationary_absorbing_balanced :
    let x := Problem.balanced.table
    let y := Problem.balanced.responses
    gradient x y (0 : Vec ℝ 1).toList (1 / 10) = .ok 0 ∧
    (∃ path log, Solver.tenth.descendWith x y [0] .silent () = .ok ⟨(path, ()), log⟩ ∧
      path.get? 5 = some (0 : Vec ℝ 1)) ∧
    ∃ paths log, Solver.tenth.accelerateWith x y [7] [0] .silent () = .ok ⟨(paths, ()), log⟩ ∧
      paths.origins.get? 5 = some (0 : Vec ℝ 1) ∧ paths.estimates.get? 5 = some (0 : Vec ℝ 1) := by
  intro x y
  have hp : Problem.ofData x y = .ok .balanced := Problem.balanced.ofData_table
  have hgrad : gradient x y (0 : Vec ℝ 1).toList (1 / 10) = .ok 0 :=
    (gradient_eq hp Solver.tenth.checkPenalty_params 0).trans
      (congrArg Except.ok (Problem.gradient_balanced_zero _))
  obtain ⟨-, ⟨path, _, log, _, hrun, -, hplain⟩, -⟩ :=
    Solver.tenth.stationary_absorbing hp 0 0 .silent ()
  obtain ⟨-, -, hfast⟩ := Solver.tenth.stationary_absorbing hp (.replicate 1 7) 0 .silent ()
  obtain ⟨paths, _, log', _, hrun', -, horigins, hestimates, -⟩ := hfast hgrad
  have hstart : path.get? 0 = some 0 := by
    obtain ⟨_, hcourse⟩ := descendWith_eq hp Solver.tenth 0 .silent ()
    have hpath : path = ((Solver.tenth.plainCourse .balanced 0).paths 5).estimates :=
      congrArg (·.value.1) (Except.ok.inj (hrun.symm.trans hcourse))
    rw [hpath]
    exact Trajectory.get?_along _ (Nat.zero_le 5)
  refine ⟨hgrad, ⟨path, log, hrun, (hplain 0 0 hstart hgrad 5 (by decide)).1 le_rfl⟩, ?_⟩
  exact ⟨paths, log', hrun', horigins 5 le_rfl, hestimates 5 (by decide) le_rfl⟩

end RidgeLogistic
