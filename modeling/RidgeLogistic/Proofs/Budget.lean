import RidgeLogistic.Proofs.SufficientDecrease

/-!
# Budgets

How many iterations a run may take decides how far it goes along its course and nothing else,
so a run with a smaller budget is how one with a larger budget begins. Plain descent brings
nothing to an iteration but the point that it is at: its gradient is the one of that point,
and each search starts from the same first trial. From any of its points on it goes the way
of a run that starts there, and only counts its iterations from a later one
(`Course.state_restart`). The accelerated scheme does not, since its momentum grows with the
number of the iteration.

No law of the arithmetic is used.
-/

namespace RidgeLogistic

variable {α : Type} {d : Nat}

/-- The event as it is told in a run that `n` iterations went before. -/
def Event.later (n : Nat) : Event α d → Event α d
  | .stalled solver iteration step trials => .stalled solver (n + iteration) step trials
  | .stepped solver iteration point step => .stepped solver (n + iteration) point step

theorem Scheme.events_later (scheme : Scheme) (n iteration : Nat) (found : Found α)
    (reached : Vec α d) :
    scheme.events (n + iteration) found reached =
      (scheme.events iteration found reached).map (Event.later n) := by
  simp only [events]
  split <;> rfl

namespace Trajectory

/-- One trajectory and then the points that follow the start of another. -/
def join (first second : Trajectory α d) : Trajectory α d where
  start := first.start
  later := first.later ++ second.later

theorem along_add (f : Nat → Vec α d) (m n : Nat) :
    along f (m + n) = (along f m).join (along (fun k => f (m + k)) n) := by
  have hlater : List.range' (1 + 1 * m) n = (List.range' 1 n).map (m + ·) := by
    rw [List.map_add_range', Nat.one_mul, Nat.add_comm]
  rw [join, along, along, along, ← List.range'_append, List.map_append, hlater, List.map_map]
  rfl

theorem points_along_prefix (f : Nat → Vec α d) (m n : Nat) :
    (along f m).points <+: (along f (m + n)).points := by
  rw [along_add]
  exact ⟨_, rfl⟩

end Trajectory

variable [Scalar α]

/-! ## Courses -/

namespace Course

variable (c : Course α d)

/-- The course from the points that iteration `n` leads to. -/
def restart (n : Nat) : Course α d :=
  { c with estimate₀ := c.estimate n, origin₀ := c.origin n }

theorem state_eq_arrive (k : Nat) :
    c.state k = c.problem.arrive c.params.penalty (c.estimate k) (c.origin k) := by
  cases k with
  | zero => rfl
  | succ k => rfl

theorem events_add (m n : Nat) :
    c.events (m + n) = c.events m ++ (List.range n).flatMap fun k => c.eventsAt (m + k) := by
  rw [events, events, List.range_add, List.flatMap_append, List.flatMap_map]

/-- The same course, for runs with another budget. -/
def withIterations (n : Nat) : Course α d :=
  { c with params := { c.params with iterations := n } }

theorem state_withIterations (n k : Nat) : (c.withIterations n).state k = c.state k := by
  induction k with
  | zero => rfl
  | succ k ih =>
      rw [state, ih]
      rfl

theorem paths_withIterations (n : Nat) : (c.withIterations n).paths = c.paths := by
  unfold paths estimate origin
  simp only [state_withIterations]

theorem events_withIterations (n : Nat) : (c.withIterations n).events = c.events := by
  unfold events eventsAt found estimate
  simp only [state_withIterations]
  rfl

variable (hs : c.scheme = .plain)

include hs

/-- A plain course goes on from each of its points as if it had started there: where the next
step starts does not depend on how many there were. -/
theorem state_restart (n k : Nat) : (c.restart n).state k = c.state (n + k) := by
  induction k with
  | zero => exact (c.state_eq_arrive n).symm
  | succ k ih =>
      -- The two courses count this iteration differently, which only a momentum would notice.
      have hadvance : ∀ it, (c.restart n).advance k it = c.advance (n + k) it := by
        intro it
        simp only [advance, restart, search, hs]
        rfl
      rw [state, ih, hadvance]
      rfl

theorem eventsAt_restart (n k : Nat) :
    c.eventsAt (n + k) = ((c.restart n).eventsAt k).map (Event.later n) := by
  rw [eventsAt, eventsAt, found, found, estimate, estimate, c.state_restart hs, c.state_restart hs,
    ← Scheme.events_later]
  rfl

theorem estimates_add (m n : Nat) :
    (c.paths (m + n)).estimates =
      (c.paths m).estimates.join ((c.restart m).paths n).estimates := by
  have hestimate : (c.restart m).estimate = fun k => c.estimate (m + k) :=
    funext fun k => congrArg Iterate.estimate (c.state_restart hs m k)
  rw [paths, paths, paths, hestimate, Trajectory.along_add]

theorem events_restart (m n : Nat) :
    c.events (m + n) = c.events m ++ ((c.restart m).events n).map (Event.later m) := by
  have hlater : (c.restart m).events n = (List.range n).flatMap (c.restart m).eventsAt := rfl
  rw [events_add, hlater, List.map_flatMap]
  simp only [c.eventsAt_restart hs]

end Course

/-! ## Solvers -/

namespace Solver

/-- The solver with another budget. Every budget is acceptable. -/
def withIterations (solver : Solver α) (n : Nat) : Solver α where
  params := { solver.params with iterations := n }
  accepted := solver.accepted

theorem restart_plainCourse (solver : Solver α) (p : Problem α d) (β : Vec α d) (n : Nat) :
    (solver.plainCourse p β).restart n =
      solver.plainCourse p ((solver.plainCourse p β).estimate n) := by
  rw [Course.restart, Course.origin_eq_estimate _ rfl rfl]
  rfl

section

variable {σ : Type} {x : Table α} {y : List α} {p : Problem α x.width}
  (hp : Problem.ofData x y = .ok p) (solver : Solver α) (n : Nat)

include hp

theorem descendWith_withIterations (β : Vec α x.width) (observer : Observer α x.width σ)
    (state : σ) :
    let c := solver.plainCourse p β
    ∃ log, (solver.withIterations n).descendWith x y β.toList observer state =
      .ok ⟨((c.paths n).estimates, (observer.notifyAll (c.events n) state).value), log⟩ := by
  intro c
  rw [← c.paths_withIterations n, ← c.events_withIterations n]
  exact descendWith_eq hp (solver.withIterations n) β observer state

theorem accelerateWith_withIterations (β θ : Vec α x.width) (observer : Observer α x.width σ)
    (state : σ) :
    let c := solver.acceleratedCourse p β θ
    ∃ log, (solver.withIterations n).accelerateWith x y β.toList θ.toList observer state =
      .ok ⟨(c.paths n, (observer.notifyAll (c.events n) state).value), log⟩ := by
  intro c
  rw [← c.paths_withIterations n, ← c.events_withIterations n]
  exact accelerateWith_eq hp (solver.withIterations n) β θ observer state

end

/-- Plain descent for `m + n` iterations is plain descent for `m` and then for `n` from the last
point: the points are those of the one trajectory and then those of the other, and whoever
watches is told the events of the one and then those of the other, with the same steps and the
same stalls and with `m` more in each number of an iteration. Accelerated descent for `m`
iterations gives the beginnings of both trajectories for `m + n`, and the events that it tells
come first there. -/
theorem runs_add (solver : Solver α) {x : Table α} {y : List α} {p : Problem α x.width}
    (hp : Problem.ofData x y = .ok p) (β θ : Vec α x.width) (m n : Nat) :
    (∃ first second events later, first.start = β ∧ second.start = first.last ∧
      ∀ (σ : Type) (observer : Observer α x.width σ) (state : σ), ∃ log₁ log₂ log,
        (solver.withIterations m).descendWith x y β.toList observer state =
          .ok ⟨(first, (observer.notifyAll events state).value), log₁⟩ ∧
        (solver.withIterations n).descendWith x y first.last.toList observer state =
          .ok ⟨(second, (observer.notifyAll later state).value), log₂⟩ ∧
        (solver.withIterations (m + n)).descendWith x y β.toList observer state =
          .ok ⟨(first.join second,
            (observer.notifyAll (events ++ later.map (Event.later m)) state).value), log⟩) ∧
    ∃ paths paths' events later,
      paths.estimates.points <+: paths'.estimates.points ∧
      paths.origins.points <+: paths'.origins.points ∧
      ∀ (σ : Type) (observer : Observer α x.width σ) (state : σ), ∃ log log',
        (solver.withIterations m).accelerateWith x y β.toList θ.toList observer state =
          .ok ⟨(paths, (observer.notifyAll events state).value), log⟩ ∧
        (solver.withIterations (m + n)).accelerateWith x y β.toList θ.toList observer state =
          .ok ⟨(paths', (observer.notifyAll (events ++ later) state).value), log'⟩ := by
  refine ⟨?_, ?_⟩
  · let c := solver.plainCourse p β
    have hlast : (c.paths m).estimates.last = c.estimate m := Trajectory.last_along _ _
    have hrestart : c.restart m = solver.plainCourse p (c.estimate m) :=
      solver.restart_plainCourse p β m
    refine ⟨(c.paths m).estimates, ((c.restart m).paths n).estimates, c.events m,
      (c.restart m).events n, rfl, hlast.symm, fun σ observer state => ?_⟩
    obtain ⟨log₁, hfirst⟩ := solver.descendWith_withIterations hp m β observer state
    obtain ⟨log₂, hsecond⟩ :=
      solver.descendWith_withIterations hp n (c.estimate m) observer state
    obtain ⟨log, hwhole⟩ := solver.descendWith_withIterations hp (m + n) β observer state
    refine ⟨log₁, log₂, log, hfirst, ?_, ?_⟩
    · rw [hlast, hrestart]
      exact hsecond
    · rw [← c.estimates_add rfl, ← c.events_restart rfl]
      exact hwhole
  · let c := solver.acceleratedCourse p β θ
    obtain ⟨later, hlater⟩ : ∃ later, c.events (m + n) = c.events m ++ later :=
      ⟨_, c.events_add m n⟩
    refine ⟨c.paths m, c.paths (m + n), c.events m, later, ?_, ?_, fun σ observer state => ?_⟩
    · exact Trajectory.points_along_prefix _ _ _
    · exact Trajectory.points_along_prefix _ _ _
    · obtain ⟨log, hrun⟩ := solver.accelerateWith_withIterations hp m β θ observer state
      obtain ⟨log', hwhole⟩ :=
        solver.accelerateWith_withIterations hp (m + n) β θ observer state
      refine ⟨log, log', hrun, ?_⟩
      rw [← hlater]
      exact hwhole

/-- Five iterations as two and then three. -/
theorem runs_add_balanced :
    ∃ first second log₁ log₂ log,
      (Solver.tenth.withIterations 2).descendWith Problem.balanced.table
        Problem.balanced.responses [5] .silent () = .ok ⟨(first, ()), log₁⟩ ∧
      (Solver.tenth.withIterations 3).descendWith Problem.balanced.table
        Problem.balanced.responses first.last.toList .silent () = .ok ⟨(second, ()), log₂⟩ ∧
      (Solver.tenth.withIterations 5).descendWith Problem.balanced.table
        Problem.balanced.responses [5] .silent () = .ok ⟨(first.join second, ()), log⟩ ∧
      second.start = first.last := by
  obtain ⟨⟨first, second, _, _, -, hstart, hruns⟩, -⟩ :=
    Solver.tenth.runs_add Problem.balanced.ofData_table (Vec.replicate 1 5)
      (Vec.replicate 1 5) 2 3
  obtain ⟨log₁, log₂, log, hfirst, hsecond, hwhole⟩ := hruns Unit .silent ()
  exact ⟨first, second, log₁, log₂, log, hfirst, hsecond, hwhole, hstart⟩

end Solver

end RidgeLogistic
