import RidgeLogistic.Proofs.Exact

/-!
# Arithmetic with overflow

Exact arithmetic says nothing about what the program does where an exponential is too large to be a
number. For that there is a second arithmetic here, which is exact but for one thing: the
exponential is any function that yields a number which is not negative or overflows. What it yields
then is an infinity, and with that the rules of binary floating-point numbers set in, down to the
values that are undefined, such as the quotient of two infinities. There is but one zero, and as a
divisor it counts as positive.

Real data is data in this arithmetic too, and as long as only numbers occur the two agree. Vectors,
tables and problems are lifted into it, and sums, inner products and margins with them. How a
problem is read from its data is the same, since the labels are (`Problem.ofData_lift`).
-/

namespace RidgeLogistic

/-- A number, an infinity or no value at all, in the arithmetic with the given exponential. -/
inductive Extended (exp : ℝ → ENNReal) where
  | finite (value : ℝ)
  | infinite (negative : Bool)
  | undefined

namespace Extended

variable {exp : ℝ → ENNReal}

/-- What the exponential yields, overflow being positive infinity. -/
noncomputable def ofENNReal (e : ENNReal) : Extended exp :=
  if e = ⊤ then infinite false else finite e.toReal

/-- The product of a number and an infinity. -/
noncomputable def scaled (a : ℝ) (negative : Bool) : Extended exp :=
  if a = 0 then undefined else infinite (negative != decide (a < 0))

noncomputable def add : Extended exp → Extended exp → Extended exp
  | finite a, finite b => finite (a + b)
  | finite _, infinite negative => infinite negative
  | infinite negative, finite _ => infinite negative
  | infinite s, infinite t => if s = t then infinite s else undefined
  | _, _ => undefined

noncomputable def neg : Extended exp → Extended exp
  | finite a => finite (-a)
  | infinite negative => infinite !negative
  | undefined => undefined

noncomputable def mul : Extended exp → Extended exp → Extended exp
  | finite a, finite b => finite (a * b)
  | finite a, infinite negative => scaled a negative
  | infinite negative, finite b => scaled b negative
  | infinite s, infinite t => infinite (s != t)
  | _, _ => undefined

noncomputable def div : Extended exp → Extended exp → Extended exp
  | finite a, finite b => if b = 0 then scaled a false else finite (a / b)
  | finite _, infinite _ => finite 0
  | infinite negative, finite b => infinite (negative != decide (b < 0))
  | _, _ => undefined

/-- What is undefined is in no order with anything. -/
def lt : Extended exp → Extended exp → Prop
  | finite a, finite b => a < b
  | finite _, infinite negative => negative = false
  | infinite negative, finite _ => negative = true
  | infinite s, infinite t => s = true ∧ t = false
  | _, _ => False

def le : Extended exp → Extended exp → Prop
  | finite a, finite b => a ≤ b
  | finite _, infinite negative => negative = false
  | infinite negative, finite _ => negative = true
  | infinite s, infinite t => s = true ∨ t = false
  | _, _ => False

noncomputable def equal : Extended exp → Extended exp → Bool
  | finite a, finite b => decide (a = b)
  | infinite s, infinite t => s == t
  | _, _ => false

noncomputable def exponential : Extended exp → Extended exp
  | finite a => ofENNReal (exp a)
  | infinite false => infinite false
  | infinite true => finite 0
  | undefined => undefined

noncomputable def logarithm : Extended exp → Extended exp
  | finite a =>
    if 0 < a then finite (Real.log a) else if a = 0 then infinite true else undefined
  | infinite false => infinite false
  | _ => undefined

noncomputable def squareRoot : Extended exp → Extended exp
  | finite a => if 0 ≤ a then finite (Real.sqrt a) else undefined
  | infinite false => infinite false
  | _ => undefined

def isFinite : Extended exp → Bool
  | finite _ => true
  | _ => false

def isInfinite : Extended exp → Bool
  | infinite _ => true
  | _ => false

noncomputable instance : Scalar (Extended exp) where
  zero := finite 0
  one := finite 1
  ofNat := fun n => finite n
  ofDecimal := fun m negative e => finite (OfScientific.ofScientific m negative e)
  add := add
  sub := fun a b => add a (neg b)
  mul := mul
  div := div
  neg := neg
  lt := lt
  le := le
  decideLt := fun a b => Classical.propDecidable (lt a b)
  decideLe := fun a b => Classical.propDecidable (le a b)
  equal := equal
  exp := exponential
  log := logarithm
  sqrt := squareRoot
  isFinite := isFinite
  isInfinite := isInfinite
  roundNat
    | finite a => Scalar.roundNat a
    | _ => 0

/-! ## Numbers among themselves -/

theorem finite_zero : (finite 0 : Extended exp) = 0 := rfl

theorem finite_add (a b : ℝ) : (finite (a + b) : Extended exp) = finite a + finite b := rfl

theorem finite_mul (a b : ℝ) : (finite (a * b) : Extended exp) = finite a * finite b := rfl

theorem finite_div (a : ℝ) {b : ℝ} (hb : b ≠ 0) :
    (finite (a / b) : Extended exp) = finite a / finite b :=
  (if_neg hb).symm

theorem total_map_finite (xs : List ℝ) :
    total (xs.map (finite : ℝ → Extended exp)) = finite xs.sum := by
  rw [← total_eq_sum, total, total, List.foldl_map, ← finite_zero]
  exact List.foldl_hom _ fun a b => (finite_add a b).symm

end Extended

/-! ## Real data in the arithmetic -/

variable {d : Nat} (exp : ℝ → ENNReal)

namespace Vec

/-- The vector with the same entries. -/
def lift (v : Vec ℝ d) : Vec (Extended exp) d :=
  v.map .finite

variable {exp}

theorem lift_zero : (0 : Vec ℝ d).lift exp = 0 :=
  Vec.ext (List.map_replicate ..)

theorem lift_add (u v : Vec ℝ d) : (u + v).lift exp = u.lift exp + v.lift exp := by
  refine ext_get fun i => ?_
  simp [lift, add_def, Extended.finite_add]

theorem lift_mul (v : Vec ℝ d) (a : ℝ) :
    (v * a).lift exp = v.lift exp * (Extended.finite a : Extended exp) := by
  refine ext_get fun i => ?_
  simp [lift, mul_def, Extended.finite_mul]

theorem lift_dot (u v : Vec ℝ d) :
    (u.lift exp).dot (v.lift exp) = Extended.finite (u.dot v) := by
  have hproducts : (zipWith (· * ·) (u.lift exp) (v.lift exp)).toList =
      (zipWith (· * ·) u v).toList.map Extended.finite := by
    rw [toList_zipWith, toList_zipWith, List.map_zipWith]
    exact List.zipWith_map ..
  rw [dot, hproducts, Extended.total_map_finite, ← total_eq_sum]
  rfl

end Vec

/-- The table with the same entries. -/
def Table.lift (x : Table ℝ) : Table (Extended exp) where
  width := x.width
  rows := x.rows.map (Vec.lift exp)

def Sample.lift (s : Sample ℝ d) : Sample (Extended exp) d where
  features := s.features.lift exp
  label := s.label

def Problem.lift (p : Problem ℝ d) : Problem (Extended exp) d where
  samples := p.samples.map (Sample.lift exp)
  samples_ne_nil := List.map_eq_nil_iff.not.2 p.samples_ne_nil

variable {exp}

theorem Label.value_lift (label : Label) :
    (label.value : Extended exp) = Extended.finite label.value := by
  cases label <;> rfl

theorem Label.ofSign?_lift (v : ℝ) : ofSign? (Extended.finite v : Extended exp) = ofSign? v := rfl

theorem Label.readSigns_lift (y : List ℝ) {labels : List Label} (h : readSigns y = .ok labels) :
    readSigns (y.map (Extended.finite : ℝ → Extended exp)) = .ok labels := by
  rw [readSigns, readFrom_eq_ok_iff] at h ⊢
  rw [List.map_map, ← h]
  exact List.map_congr_left fun v _ => ofSign?_lift v

theorem Problem.ofData_lift {x : Table ℝ} {y : List ℝ} {p : Problem ℝ x.width}
    (hp : Problem.ofData x y = .ok p) :
    Problem.ofData (x.lift exp) (y.map .finite) = .ok (p.lift exp) := by
  obtain ⟨labels, hlabels, hlength, hsamples⟩ := samples_of_ofData hp
  refine ofData_of_samples (Label.readSigns_lift y hlabels) ((List.length_map _).trans hlength) ?_
  refine (congrArg (List.map (Sample.lift exp)) hsamples).trans ?_
  rw [List.map_zipWith]
  exact (List.zipWith_map_left ..).symm

end RidgeLogistic
