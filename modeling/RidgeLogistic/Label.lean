import RidgeLogistic.Error
import RidgeLogistic.Scalar

/-!
# Labels

A response is one of two labels, and data carries it as a scalar: `-1` or `+1`, or
`0` or `1` where that is said. Reading labels is the only way from scalars to
labels. It refuses every other value and names the first one, and nothing is mapped
silently from one encoding to the other.
-/

namespace RidgeLogistic

inductive Label where
  | negative
  | positive
  deriving DecidableEq, Repr

namespace Label

variable {α : Type}

/-- The label as a scalar, `-1` or `+1`. -/
def value [Scalar α] : Label → α
  | negative => -1
  | positive => 1

/-- The label that `-1` or `+1` stands for. -/
def ofSign? [Scalar α] (v : α) : Option Label :=
  if v == 1 then some positive else if v == -1 then some negative else none

/-- The label that `0` or `1` stands for. -/
def ofBit? [Scalar α] (v : α) : Option Label :=
  if v == 1 then some positive else if v == 0 then some negative else none

/-- Reads a list in one encoding, the first entry having the given index, up to the
first entry that is no label in it. -/
def readFrom (decode : α → Option Label) : Nat → List α → Except (Error α) (List Label)
  | _, [] => .ok []
  | index, v :: vs =>
    match decode v with
    | none => .error (.label index v)
    | some label => (readFrom decode (index + 1) vs).map (label :: ·)

def readSigns [Scalar α] : List α → Except (Error α) (List Label) :=
  readFrom ofSign? 0

def readBits [Scalar α] : List α → Except (Error α) (List Label) :=
  readFrom ofBit? 0

theorem length_of_readFrom {decode : α → Option Label} {index : Nat} {ys : List α}
    {labels : List Label} (h : readFrom decode index ys = .ok labels) :
    labels.length = ys.length := by
  induction ys generalizing index labels with
  | nil =>
    injection h with h
    rw [← h]
    rfl
  | cons v vs ih =>
    rw [readFrom] at h
    split at h
    · injection h
    · cases hrest : readFrom decode (index + 1) vs with
      | error e =>
        rw [hrest] at h
        injection h
      | ok rest =>
        rw [hrest] at h
        injection h with h
        rw [← h]
        simp [ih hrest]

end Label

end RidgeLogistic
