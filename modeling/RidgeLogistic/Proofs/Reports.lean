import RidgeLogistic.Proofs.Checked

/-!
# What a run reports

The events of a run, as one who records them all has seen them at its end. Every
iteration is reported with the step that it took, and a stall of its search is reported
if and only if the search was not accepted (`stalled_events_iff`,
`steppedBy_events_iff`); so a statement about what is reported is one about the searches
of the course.
-/

namespace RidgeLogistic

variable {α : Type} {d : Nat}

/-- A stall was reported of an iteration. -/
def Stalled (events : Array (Event α d)) (iteration : Nat) : Prop :=
  ∃ solver step trials, .stalled solver iteration step trials ∈ events

/-- An iteration was reported with a step. -/
def SteppedBy (events : Array (Event α d)) (iteration : Nat) (step : α) : Prop :=
  ∃ solver point, .stepped solver iteration point step ∈ events

variable [Scalar α]

def Solver.descentEvents (solver : Solver α) (x : Table α) (y β : List α) :
    Except (Error α) (Array (Event α x.width)) :=
  (fun run => run.value.2) <$> solver.descendWith x y β Observer.recorder #[]

def Solver.accelerationEvents (solver : Solver α) (x : Table α) (y β θ : List α) :
    Except (Error α) (Array (Event α x.width)) :=
  (fun run => run.value.2) <$> solver.accelerateWith x y β θ Observer.recorder #[]

section

variable {x : Table α} {y : List α} {p : Problem α x.width}
variable (hp : Problem.ofData x y = .ok p)

include hp

theorem descentEvents_eq (solver : Solver α) (β : Vec α x.width) :
    solver.descentEvents x y β.toList =
      .ok ((solver.plainCourse p β).events solver.params.iterations).toArray := by
  obtain ⟨log, hrun⟩ := descendWith_eq hp solver β Observer.recorder #[]
  rw [Solver.descentEvents, hrun, Observer.value_notifyAll_recorder]
  simp [Functor.map, Except.map]

theorem accelerationEvents_eq (solver : Solver α) (β θ : Vec α x.width) :
    solver.accelerationEvents x y β.toList θ.toList =
      .ok ((solver.acceleratedCourse p β θ).events solver.params.iterations).toArray := by
  obtain ⟨log, hrun⟩ := accelerateWith_eq hp solver β θ Observer.recorder #[]
  rw [Solver.accelerationEvents, hrun, Observer.value_notifyAll_recorder]
  simp [Functor.map, Except.map]

end

/-! ## Reading the events of a course -/

omit [Scalar α] in
theorem Scheme.stalled_mem_events {scheme : Scheme} {n iteration trials : Nat}
    {found : Found α} {reached : Vec α d} {solver : String} {step : α} :
    .stalled solver iteration step trials ∈ scheme.events n found reached ↔
      found.accepted = false ∧ solver = scheme.title ∧ iteration = n ∧
        step = found.step ∧ trials = found.trials := by
  rw [events]
  split <;> simp_all

omit [Scalar α] in
theorem Scheme.stepped_mem_events {scheme : Scheme} {n iteration : Nat}
    {found : Found α} {reached point : Vec α d} {solver : String} {step : α} :
    .stepped solver iteration point step ∈ scheme.events n found reached ↔
      solver = scheme.title ∧ iteration = n ∧ point = reached ∧ step = found.step := by
  rw [events]
  split <;> simp

namespace Course

variable (c : Course α d)

theorem mem_events {n : Nat} {event : Event α d} :
    event ∈ (c.events n).toArray ↔ ∃ k < n, event ∈ c.eventsAt k := by
  simp [events]

theorem stalled_events_iff {n k : Nat} :
    Stalled (c.events n).toArray (k + 1) ↔ k < n ∧ (c.found k).accepted = false := by
  constructor
  · rintro ⟨solver, step, trials, h⟩
    obtain ⟨i, hi, hmem⟩ := c.mem_events.1 h
    obtain ⟨hacc, -, hk, -, -⟩ := Scheme.stalled_mem_events.1 hmem
    obtain rfl : k = i := by omega
    exact ⟨hi, hacc⟩
  · rintro ⟨hk, hacc⟩
    exact ⟨_, _, _, c.mem_events.2
      ⟨k, hk, Scheme.stalled_mem_events.2 ⟨hacc, rfl, rfl, rfl, rfl⟩⟩⟩

theorem stepped_mem_events {n k : Nat} (hk : k < n) :
    .stepped c.scheme.title (k + 1) (c.estimate (k + 1)) (c.found k).step ∈
      (c.events n).toArray :=
  c.mem_events.2 ⟨k, hk, Scheme.stepped_mem_events.2 ⟨rfl, rfl, rfl, rfl⟩⟩

theorem steppedBy_events_iff {n k : Nat} {step : α} :
    SteppedBy (c.events n).toArray (k + 1) step ↔ k < n ∧ step = (c.found k).step := by
  constructor
  · rintro ⟨solver, point, h⟩
    obtain ⟨i, hi, hmem⟩ := c.mem_events.1 h
    obtain ⟨-, hk, -, hstep⟩ := Scheme.stepped_mem_events.1 hmem
    obtain rfl : k = i := by omega
    exact ⟨hi, hstep⟩
  · rintro ⟨hk, rfl⟩
    exact ⟨_, _, c.stepped_mem_events hk⟩

theorem not_stalled_of_accepted {n : Nat} (h : ∀ k < n, (c.found k).accepted = true)
    (iteration : Nat) : ¬Stalled (c.events n).toArray iteration := by
  rintro ⟨solver, step, trials, hmem⟩
  obtain ⟨k, hk, hevent⟩ := c.mem_events.1 hmem
  obtain ⟨hacc, -⟩ := Scheme.stalled_mem_events.1 hevent
  rw [h k hk] at hacc
  exact Bool.noConfusion hacc

/-- Where no stall was reported the search was accepted. -/
theorem accepted_of_not_stalled {n k : Nat} (hk : k < n)
    (h : ¬Stalled (c.events n).toArray (k + 1)) : (c.found k).accepted = true := by
  rw [stalled_events_iff] at h
  simpa [hk] using h

end Course

end RidgeLogistic
