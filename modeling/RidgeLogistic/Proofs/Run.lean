import RidgeLogistic.Solver

/-!
# Runs in closed form

A run is a loop with four things in its hands: how many iterations are left, the
number of the present one, the state between two iterations and the state of the
observer. Only the third decides where the run goes. This file takes it out of the
loop: a `Course` is what a run is made on, `Course.state` is the sequence of states
that it goes through, one for each natural number and whatever the budget, and
`Problem.value_run` says that the loop walks along this sequence as far as its budget
reaches and tells its observer the events of the way, in order.

The state carries the gradient of the point that the next search starts from. That it
is the gradient of that point, and not of another one, is an invariant of the loop
(`Course.grad_state`); with it the sequence satisfies the recurrence of its scheme in
terms of the points alone.
-/

namespace RidgeLogistic

variable {α : Type} [Scalar α] {d : Nat} {σ : Type}

/-- The first points of a sequence, up to the one with index `n`. -/
def Trajectory.along (f : Nat → Vec α d) (n : Nat) : Trajectory α d where
  start := f 0
  later := (List.range' 1 n).map f

/-- What decides the states of a run, but for how many of them there are: the problem,
the scheme with its parameters, and the two points that the run starts from. -/
structure Course (α : Type) (d : Nat) where
  problem : Problem α d
  scheme : Scheme
  params : Params α
  estimate₀ : Vec α d
  origin₀ : Vec α d

namespace Course

variable (c : Course α d)

def objectiveAt (point : Vec α d) : α :=
  c.problem.objective c.params.penalty point

def gradientAt (point : Vec α d) : Vec α d :=
  c.problem.gradient c.params.penalty point

/-- What the search of an iteration finds that begins in a state. -/
def search (it : Iterate α d) : Found α :=
  (c.problem.backtrack c.params.search c.params.penalty it.origin it.grad
    c.params.step).value

/-- The state that iteration `k` leads to from another one. -/
def advance (k : Nat) (it : Iterate α d) : Iterate α d :=
  let reached := it.origin - it.grad * (c.search it).step
  c.problem.arrive c.params.penalty reached (c.scheme.origin k it.estimate reached)

def state : Nat → Iterate α d
  | 0 => c.problem.arrive c.params.penalty c.estimate₀ c.origin₀
  | k + 1 => c.advance k (state k)

def estimate (k : Nat) : Vec α d :=
  (c.state k).estimate

def origin (k : Nat) : Vec α d :=
  (c.state k).origin

def found (k : Nat) : Found α :=
  c.search (c.state k)

def eventsAt (k : Nat) : List (Event α d) :=
  c.scheme.events (k + 1) (c.found k) (c.estimate (k + 1))

/-- What there is to report of the first `n` iterations. -/
def events (n : Nat) : List (Event α d) :=
  (List.range n).flatMap c.eventsAt

def paths (n : Nat) : Paths α d where
  estimates := .along c.estimate n
  origins := .along c.origin n

/-! ## The recurrence -/

@[simp] theorem estimate_zero : c.estimate 0 = c.estimate₀ := rfl

@[simp] theorem origin_zero : c.origin 0 = c.origin₀ := rfl

/-- The gradient that the loop carries is that of the point the next search starts
from. Every state is one that was just arrived at, the first one included. -/
theorem grad_state (k : Nat) : (c.state k).grad = c.gradientAt (c.origin k) := by
  cases k with
  | zero => rfl
  | succ k => rfl

theorem found_eq (k : Nat) :
    c.found k =
      (c.problem.backtrack c.params.search c.params.penalty (c.origin k)
        (c.gradientAt (c.origin k)) c.params.step).value := by
  rw [← grad_state]
  rfl

/-- Every estimate but the first is one searched gradient step from an origin. -/
theorem estimate_succ (k : Nat) :
    c.estimate (k + 1) =
      c.origin k - c.gradientAt (c.origin k) * (c.found k).step := by
  rw [← grad_state]
  rfl

theorem origin_succ (k : Nat) :
    c.origin (k + 1) = c.scheme.origin k (c.estimate k) (c.estimate (k + 1)) := rfl

/-- In the plain scheme the estimate is where the next step starts, if it is so at the
beginning. -/
theorem origin_eq_estimate (hs : c.scheme = .plain) (h₀ : c.origin₀ = c.estimate₀)
    (k : Nat) : c.origin k = c.estimate k := by
  cases k with
  | zero => exact h₀
  | succ k => rw [origin_succ, hs]; rfl

theorem origins_eq_estimates (hs : c.scheme = .plain) (h₀ : c.origin₀ = c.estimate₀) (n : Nat) :
    (c.paths n).origins = (c.paths n).estimates := by
  rw [paths, show c.origin = c.estimate from funext (c.origin_eq_estimate hs h₀)]

theorem origin_succ_accelerated (hs : c.scheme = .accelerated) (k : Nat) :
    c.origin (k + 1) =
      c.estimate (k + 1) +
        (c.estimate (k + 1) - c.estimate k) * ((k : α) / ((k : α) + 3.0)) := by
  rw [origin_succ, hs, Scheme.origin_accelerated]

end Course

/-! ## Trajectories along a sequence -/

namespace Trajectory

variable (f : Nat → Vec α d)

omit [Scalar α]

@[simp] theorem length_along (n : Nat) : (along f n).length = n + 1 := by
  simp [along, length]

theorem points_along (n : Nat) : (along f n).points = (List.range (n + 1)).map f := by
  rw [List.range_eq_range', List.range'_succ, List.map_cons]
  rfl

theorem get?_along {n k : Nat} (hk : k ≤ n) : (along f n).get? k = some (f k) := by
  rw [get?, points_along, List.getElem?_map, List.getElem?_range (by omega)]
  rfl

theorem get?_along_eq_some_iff {n k : Nat} {point : Vec α d} :
    (along f n).get? k = some point ↔ k ≤ n ∧ f k = point := by
  refine ⟨fun h => ?_, fun ⟨hk, hpoint⟩ => (get?_along f hk).trans (congrArg some hpoint)⟩
  have hlt : k < (along f n).length := (List.getElem?_eq_some_iff.1 h).1
  rw [length_along] at hlt
  have hk : k ≤ n := Nat.lt_succ_iff.1 hlt
  exact ⟨hk, Option.some.inj ((get?_along f hk).symm.trans h)⟩

@[simp] theorem last_along (n : Nat) : (along f n).last = f n := by
  cases n with
  | zero => rfl
  | succ n =>
      rw [last, along, List.range'_concat, List.map_append, List.map_singleton,
        List.getLastD_concat]
      congr 1
      omega

theorem mem_points_along {n : Nat} {point : Vec α d} :
    point ∈ (along f n).points ↔ ∃ k ≤ n, f k = point := by
  simp only [points_along, List.mem_map, List.mem_range, Nat.lt_succ_iff]

end Trajectory

/-! ## The loop walks along its course -/

/-- The loop from iteration `k` on, started in the state that the course has there. The
induction is on the iterations that are left: one of them takes the state of the course
to the next one and tells the observer what the course has to report of it. -/
theorem Problem.value_iterate (c : Course α d) (observer : Observer α d σ)
    (left k : Nat) (state : σ) :
    (c.problem.iterate c.scheme c.params observer left k (c.state k) state).value =
      ((List.range' (k + 1) left).map c.state,
        (observer.notifyAll ((List.range' k left).flatMap c.eventsAt) state).value) := by
  induction left generalizing k state with
  | zero => rfl
  | succ left ih =>
      rw [iterate, List.range'_succ, List.map_cons, List.range'_succ,
        List.flatMap_cons, Observer.value_notifyAll_append]
      have hrest := ih (k + 1) (observer.notifyAll (c.eventsAt k) state).value
      simp only [Logged.value_bind, Logged.value_map]
      exact congrArg (fun rest => (c.state (k + 1) :: rest.1, rest.2)) hrest

/-- A run gives the trajectories of its course, as long as the budget allows, and its
observer is told the events of the course and nothing else. -/
theorem Problem.value_run (c : Course α d) (observer : Observer α d σ) (state : σ) :
    (c.problem.run c.scheme c.params observer c.estimate₀ c.origin₀ state).value =
      (c.paths c.params.iterations,
        (observer.notifyAll (c.events c.params.iterations) state).value) := by
  have h := Problem.value_iterate c observer c.params.iterations 0 state
  rw [← List.range_eq_range'] at h
  have hpaths : Paths.ofIterates (c.state 0)
      ((List.range' 1 c.params.iterations).map c.state) = c.paths c.params.iterations := by
    rw [Paths.ofIterates, List.map_map, List.map_map]
    rfl
  rw [run, Logged.value_map, ← hpaths]
  exact congrArg (fun rest => (Paths.ofIterates (c.state 0) rest.1, rest.2)) h

end RidgeLogistic
