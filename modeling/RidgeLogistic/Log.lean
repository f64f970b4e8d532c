import RidgeLogistic.Decimal.Scientific
import RidgeLogistic.Decimal.Shortest
import RidgeLogistic.Scheme

/-!
# Log records

What a computation has to say on its way is part of its result: a `Logged` value is
a value with the records that were made for it, in order. A record is what happened,
with the numbers of that moment; its level and its wording are functions of it.

A call that is refused has no `Logged` value at all, so it leaves no record.
-/

namespace RidgeLogistic

/-- How much a record matters, from the gravest down. -/
inductive Level where
  | error
  | warn
  | info
  | debug
  | trace
  deriving DecidableEq, Repr

namespace Level

def rank : Level → Nat
  | error => 0
  | warn => 1
  | info => 2
  | debug => 3
  | trace => 4

/-- Whether a log that is kept up to the level `limit` keeps a record of this one. -/
def within (limit level : Level) : Bool :=
  level.rank ≤ limit.rank

end Level

inductive Record (α : Type) where
  /-- A trial of a line search failed, with the objective at its candidate. -/
  | rejected (step objective : α)
  /-- An iteration that progress is reported after. -/
  | progress (solver : String) (iteration : Nat) (step : α)
  /-- The line search of an iteration ran out of trials. -/
  | stalled (solver : String) (iteration trials : Nat) (step : α)
  | fitted (scheme : Scheme) (penalty : α) (iterations : Nat)
  deriving DecidableEq, Repr

namespace Record

def level {α : Type} : Record α → Level
  | rejected .. => .trace
  | progress .. => .debug
  | stalled .. => .warn
  | fitted .. => .debug

/-- Steps are written in scientific notation with three places. -/
def stepFormat : Decimal.Scientific := { places := 3 }

/-- Objectives are written in scientific notation with six places. -/
def objectiveFormat : Decimal.Scientific := { places := 6 }

def message : Record Float → String
  | rejected step objective =>
    "line search rejected step " ++ stepFormat.render step ++
      " (objective " ++ objectiveFormat.render objective ++ ")"
  | progress solver iteration step =>
    solver ++ s!" iteration {iteration} (step " ++ stepFormat.render step ++ ")"
  | stalled solver iteration trials step =>
    solver ++ s!" iteration {iteration}: line search reached {trials} trials " ++
      "without sufficient decrease, using step " ++ stepFormat.render step
  | fitted scheme penalty iterations =>
    "fitted logistic regression with " ++ scheme.name ++ ", lambda " ++
      Decimal.shortest penalty ++ s!", {iterations} iterations"

end Record

/-- A value together with the records made on the way to it. -/
structure Logged (α β : Type) where
  value : β
  log : List (Record α)
  deriving DecidableEq, Repr

namespace Logged

variable {α β γ : Type}

/-- The records of a sequence of computations follow each other, and a function of
the value leaves them alone. -/
instance : Monad (Logged α) where
  pure b := ⟨b, []⟩
  map f m := ⟨f m.value, m.log⟩
  bind m f :=
    let next := f m.value
    ⟨next.value, m.log ++ next.log⟩

def tell (record : Record α) : Logged α Unit :=
  ⟨(), [record]⟩

theorem eq_mk_of_value_eq {m : Logged α β} {b : β} (h : m.value = b) :
    m = ⟨b, m.log⟩ := by
  rw [← h]

@[simp] theorem value_pure (b : β) : (pure b : Logged α β).value = b := rfl

@[simp] theorem log_pure (b : β) : (pure b : Logged α β).log = [] := rfl

@[simp] theorem value_map (f : β → γ) (m : Logged α β) :
    (f <$> m).value = f m.value := rfl

@[simp] theorem log_map (f : β → γ) (m : Logged α β) : (f <$> m).log = m.log := rfl

@[simp] theorem value_bind (m : Logged α β) (f : β → Logged α γ) :
    (m >>= f).value = (f m.value).value := rfl

@[simp] theorem log_bind (m : Logged α β) (f : β → Logged α γ) :
    (m >>= f).log = m.log ++ (f m.value).log := rfl

@[simp] theorem log_tell (record : Record α) : (tell record).log = [record] := rfl

theorem map_bind {δ : Type} (f : γ → δ) (m : Logged α β) (g : β → Logged α γ) :
    f <$> (m >>= g) = m >>= fun b => f <$> g b := rfl

theorem map_map {δ : Type} (f : β → γ) (g : γ → δ) (m : Logged α β) :
    g <$> (f <$> m) = (g ∘ f) <$> m := rfl

end Logged

end RidgeLogistic
