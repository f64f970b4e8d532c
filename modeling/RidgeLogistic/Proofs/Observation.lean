import RidgeLogistic.Proofs.Checked

/-!
# What observers see

An observer cannot speak back to a run, and it learns nothing that the answer of the run does
not hold already. The second half is the one with content: a run reports steps and trial
counts, which no trajectory records, from searches made with a gradient that it carries along.

`Solver.retell` tells the events of a run again to someone who has only the trajectories. At
each point that a step started from it makes the search anew, through the checked call, and
it reports the point that the other trajectory has next. `Solver.retell_eq` says that this
gives the events of a course, and `Solver.observed` that every observer, whatever its state
and its reactions, has seen just these at the end and has changed neither trajectory.
-/

namespace RidgeLogistic

variable {α : Type} [Scalar α] {σ : Type} {d : Nat}

/-- An iteration as it is reported: first that its search stalled, if it did, and then its
step. -/
def Found.told (found : Found α) (title : String) (iteration : Nat) (reached : Vec α d) :
    List (Event α d) :=
  (if found.accepted then [] else [.stalled title iteration found.step found.trials]) ++
    [.stepped title iteration reached found.step]

/-- The events of a run, from the points that its steps started at and the estimates that they
reached. Iterations are counted from one. -/
def Solver.retell (solver : Solver α) (x : Table α) (y : List α) (title : String)
    (origins estimates : Trajectory α x.width) :
    Except (Error α) (List (Event α x.width)) :=
  List.flatten <$> ((origins.points.zip estimates.later).zipIdx 1).mapM fun move => do
    let found ← lineSearch x y move.1.1.toList solver.params.penalty solver.params.step
      solver.params.search
    return found.value.told title move.2 move.1.2

omit [Scalar α] in
theorem Scheme.events_eq_told (scheme : Scheme) (iteration : Nat) (found : Found α)
    (reached : Vec α d) :
    scheme.events iteration found reached = found.told scheme.title iteration reached := by
  rw [events, Found.told]
  split <;> rfl

omit [Scalar α] in
/-- Each point of one sequence with the next point of another, the second one's index beside
them. -/
theorem Trajectory.zip_along (f g : Nat → Vec α d) (n : Nat) :
    ((along f n).points.zip (along g n).later).zipIdx 1 =
      (List.range n).map fun k => ((f k, g (k + 1)), k + 1) := by
  rw [points_along]
  apply List.ext_getElem
  · simp [along]
  · intro k _ _
    simp [along, Nat.add_comm]

theorem Solver.retell_eq (solver : Solver α) {x : Table α} {y : List α} (c : Course α x.width)
    (hp : Problem.ofData x y = .ok c.problem) (hparams : c.params = solver.params) (n : Nat) :
    solver.retell x y c.scheme.title (c.paths n).origins (c.paths n).estimates =
      .ok (c.events n) := by
  have hmove : ∀ k, (do
      let found ← lineSearch x y (c.origin k).toList solver.params.penalty solver.params.step
        solver.params.search
      return found.value.told c.scheme.title (k + 1) (c.estimate (k + 1))) =
      (pure (c.eventsAt k) : Except (Error α) _) := by
    intro k
    -- The course searches with the gradient that it carries, the checked call with its own.
    rw [lineSearch_eq hp, Course.eventsAt, Scheme.events_eq_told, c.found_eq, hparams,
      Course.gradientAt, hparams]
    rfl
  rw [retell, Course.paths, Trajectory.zip_along, List.mapM_map]
  simp only [Function.comp_def, hmove, List.mapM_pure]
  rfl

/-- For every observer, a run gives the trajectories that it gives to the silent one, and
leaves the observer in the state that its reactions lead to over the events that the
trajectories tell: for each iteration in order a stall if and only if the search at the point
where its step started was not accepted, and then the step. -/
theorem Solver.observed (solver : Solver α) (x : Table α) (y : List α)
    (observer : Observer α x.width σ) (state : σ) :
    (∀ p β start, Problem.ofData x y = .ok p → x.point .betaStart β = .ok start →
      ∃ path events log silentLog,
        solver.descendWith x y β observer state =
          .ok ⟨(path, events.foldl (fun s event => (observer.notify event s).value) state),
            log⟩ ∧
        solver.descendWith x y β Observer.silent () = .ok ⟨(path, ()), silentLog⟩ ∧
        path.length = solver.params.iterations + 1 ∧
        solver.retell x y "gradient descent" path path = .ok events) ∧
    (∀ p β θ start origin, Problem.ofData x y = .ok p →
      x.point .betaStart β = .ok start → x.point .thetaStart θ = .ok origin →
      ∃ paths events log silentLog,
        solver.accelerateWith x y β θ observer state =
          .ok ⟨(paths, events.foldl (fun s event => (observer.notify event s).value) state),
            log⟩ ∧
        solver.accelerateWith x y β θ Observer.silent () = .ok ⟨(paths, ()), silentLog⟩ ∧
        paths.estimates.length = solver.params.iterations + 1 ∧
        paths.origins.length = solver.params.iterations + 1 ∧
        solver.retell x y "fast gradient" paths.origins paths.estimates = .ok events) := by
  refine ⟨?_, ?_⟩
  · intro p β start hp hβ
    obtain rfl := Table.toList_of_point hβ
    let c := solver.plainCourse p start
    let n := solver.params.iterations
    obtain ⟨log, hrun⟩ := descendWith_eq hp solver start observer state
    obtain ⟨silentLog, hsilent⟩ := descendWith_eq hp solver start Observer.silent ()
    have hretell : solver.retell x y _ (c.paths n).origins (c.paths n).estimates = _ :=
      solver.retell_eq c hp rfl n
    rw [c.origins_eq_estimates rfl rfl] at hretell
    rw [Observer.value_notifyAll] at hrun
    exact ⟨_, _, log, silentLog, hrun, hsilent, Trajectory.length_along _ _, hretell⟩
  · intro p β θ start origin hp hβ hθ
    obtain rfl := Table.toList_of_point hβ
    obtain rfl := Table.toList_of_point hθ
    obtain ⟨log, hrun⟩ := accelerateWith_eq hp solver start origin observer state
    obtain ⟨silentLog, hsilent⟩ := accelerateWith_eq hp solver start origin Observer.silent ()
    rw [Observer.value_notifyAll] at hrun
    exact ⟨_, _, log, silentLog, hrun, hsilent, Trajectory.length_along _ _,
      Trajectory.length_along _ _, solver.retell_eq (solver.acceleratedCourse p start origin)
        hp rfl _⟩

end RidgeLogistic
