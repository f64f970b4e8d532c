import RidgeLogistic.Log
import RidgeLogistic.Vec

/-!
# Observers

A run tells an observer what happens, event by event. An observer is a state and a
reaction to each event, which may make log records and gives the next state; it has
no way to speak back to the run.
-/

namespace RidgeLogistic

/-- What a run reports. Iterations are counted from one. -/
inductive Event (α : Type) (d : Nat) where
  /-- The line search of an iteration ran out of trials. -/
  | stalled (solver : String) (iteration : Nat) (step : α) (trials : Nat)
  /-- An iteration reached a point by a step. -/
  | stepped (solver : String) (iteration : Nat) (point : Vec α d) (step : α)

/-- A reaction to events that keeps a state. -/
structure Observer (α : Type) (d : Nat) (σ : Type) where
  notify : Event α d → σ → Logged α σ

namespace Observer

variable {α : Type} {d : Nat}

def silent : Observer α d Unit where
  notify _ _ := pure ()

/-- Whether progress is due after an iteration: every so many of them, and never
where the interval is zero. -/
def due (every iteration : Nat) : Bool :=
  0 < every && iteration % every == 0

/-- Makes a record of each stall, and of the iterations at which progress is due. -/
def logger (every : Nat) : Observer α d Unit where
  notify
    | .stalled solver iteration step trials, _ =>
      Logged.tell (.stalled solver iteration trials step)
    | .stepped solver iteration _ step, _ =>
      if due every iteration then Logged.tell (.progress solver iteration step)
      else pure ()

def standardInterval : Nat := 100

/-- Keeps every event, the latest at the end. -/
def recorder : Observer α d (Array (Event α d)) where
  notify event seen := pure (seen.push event)

/-- Tells an observer a list of events in order. -/
def notifyAll {σ : Type} (observer : Observer α d σ) (events : List (Event α d))
    (state : σ) : Logged α σ :=
  events.foldlM (fun state event => observer.notify event state) state

/-- The state that events leave is the fold of the reactions over them. -/
theorem value_notifyAll {σ : Type} (observer : Observer α d σ)
    (events : List (Event α d)) (state : σ) :
    (observer.notifyAll events state).value =
      events.foldl (fun state event => (observer.notify event state).value) state := by
  induction events generalizing state with
  | nil => rfl
  | cons event events ih =>
      rw [notifyAll, List.foldlM_cons, Logged.value_bind, List.foldl_cons]
      exact ih _

theorem value_notifyAll_append {σ : Type} (observer : Observer α d σ)
    (events later : List (Event α d)) (state : σ) :
    (observer.notifyAll (events ++ later) state).value =
      (observer.notifyAll later (observer.notifyAll events state).value).value := by
  simp only [value_notifyAll, List.foldl_append]

theorem value_notifyAll_recorder (events : List (Event α d))
    (seen : Array (Event α d)) :
    (recorder.notifyAll events seen).value = seen ++ events.toArray := by
  rw [value_notifyAll]
  exact List.foldl_push_eq_append'

end Observer

end RidgeLogistic
