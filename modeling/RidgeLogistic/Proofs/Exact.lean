import Mathlib
import RidgeLogistic.Problem
import RidgeLogistic.Proofs.Labels

/-!
# Exact arithmetic

The real numbers are a `Scalar`: every operation is the exact one, every value is an
ordinary number, and what the definitions compute over them is what their formulas say.

A definition read over the reals is still written with the operations of the class. The
lemmas here restate the operations on lists and vectors in those of the reals, entry by
entry, and give the inner product its algebra. Everything later reads a vector through
`Vec.get` and `Vec.dot` alone.
-/

namespace RidgeLogistic

noncomputable instance Scalar.real : Scalar ℝ where
  zero := 0
  one := 1
  ofNat := fun n => (n : ℝ)
  ofDecimal := OfScientific.ofScientific
  add := (· + ·)
  sub := (· - ·)
  mul := (· * ·)
  div := (· / ·)
  neg := (- ·)
  lt := (· < ·)
  le := (· ≤ ·)
  decideLt := fun a b => Classical.propDecidable (a < b)
  decideLe := fun a b => Classical.propDecidable (a ≤ b)
  equal := fun a b => decide (a = b)
  exp := Real.exp
  log := Real.log
  sqrt := Real.sqrt
  isFinite := fun _ => true
  isInfinite := fun _ => false
  roundNat := fun x => ⌊x + 1 / 2⌋₊

theorem total_eq_sum (xs : List ℝ) : total xs = xs.sum :=
  List.sum_eq_foldl.symm

section

variable {β : Type} {f : β → ℝ} {xs : List β}

theorem sum_sq_nonneg : 0 ≤ (xs.map fun a => f a ^ 2).sum := by
  refine List.sum_nonneg fun s hs => ?_
  obtain ⟨a, -, rfl⟩ := List.mem_map.1 hs
  exact sq_nonneg _

/-- Squares do not cancel. -/
theorem sum_sq_eq_zero_iff : (xs.map fun a => f a ^ 2).sum = 0 ↔ ∀ a ∈ xs, f a = 0 := by
  induction xs with
  | nil => simp
  | cons a xs ih =>
      rw [List.map_cons, List.sum_cons, add_eq_zero_iff_of_nonneg (sq_nonneg _) sum_sq_nonneg, ih,
        pow_eq_zero_iff two_ne_zero, List.forall_mem_cons]

end

namespace Vec

variable {d : Nat}

@[simp] theorem get_zero (i : Fin d) : (0 : Vec ℝ d).get i = 0 :=
  get_replicate (0 : ℝ) i

@[simp] theorem get_add (u v : Vec ℝ d) (i : Fin d) :
    (u + v).get i = u.get i + v.get i :=
  get_zipWith (fun a b : ℝ => a + b) u v i

@[simp] theorem get_sub (u v : Vec ℝ d) (i : Fin d) :
    (u - v).get i = u.get i - v.get i :=
  get_zipWith (fun a b : ℝ => a - b) u v i

@[simp] theorem get_mul (v : Vec ℝ d) (a : ℝ) (i : Fin d) :
    (v * a).get i = v.get i * a :=
  get_map (fun b : ℝ => b * a) v i

theorem forall_mem_toList_eq_zero_iff {v : Vec ℝ d} : (∀ a ∈ v.toList, a = 0) ↔ v = 0 := by
  constructor
  · intro h
    refine ext_get fun i => ?_
    rw [get_zero]
    exact h _ (List.getElem_mem _)
  · rintro rfl a ha
    exact (List.mem_replicate.1 ha).2

theorem dot_eq_sum (u v : Vec ℝ d) : u.dot v = ∑ i, u.get i * v.get i := by
  rw [dot, total_eq_sum, toList_eq_ofFn, List.sum_ofFn]
  exact Finset.sum_congr rfl fun i _ => get_zipWith _ u v i

/-! ## The inner product -/

theorem cons_dot_cons (a b : ℝ) (u v : Vec ℝ d) :
    (cons a u).dot (cons b v) = a * b + u.dot v := by
  rw [dot, dot, total_eq_sum, total_eq_sum]
  exact List.sum_cons

theorem dot_comm (u v : Vec ℝ d) : u.dot v = v.dot u := by
  rw [dot_eq_sum, dot_eq_sum]
  exact Finset.sum_congr rfl fun i _ => mul_comm _ _

@[simp] theorem zero_dot (v : Vec ℝ d) : (0 : Vec ℝ d).dot v = 0 := by
  simp [dot_eq_sum]

@[simp] theorem dot_zero (v : Vec ℝ d) : v.dot 0 = 0 := by
  rw [dot_comm, zero_dot]

theorem add_dot (u v w : Vec ℝ d) : (u + v).dot w = u.dot w + v.dot w := by
  simp only [dot_eq_sum, get_add, add_mul, Finset.sum_add_distrib]

theorem dot_add (u v w : Vec ℝ d) : u.dot (v + w) = u.dot v + u.dot w := by
  rw [dot_comm, add_dot, dot_comm v, dot_comm w]

theorem sub_dot (u v w : Vec ℝ d) : (u - v).dot w = u.dot w - v.dot w := by
  simp only [dot_eq_sum, get_sub, sub_mul, Finset.sum_sub_distrib]

theorem dot_sub (u v w : Vec ℝ d) : u.dot (v - w) = u.dot v - u.dot w := by
  rw [dot_comm, sub_dot, dot_comm v, dot_comm w]

theorem mul_dot (u : Vec ℝ d) (a : ℝ) (v : Vec ℝ d) : (u * a).dot v = a * u.dot v := by
  simp only [dot_eq_sum, get_mul, Finset.mul_sum]
  exact Finset.sum_congr rfl fun i _ => by ring

theorem dot_mul (u v : Vec ℝ d) (a : ℝ) : u.dot (v * a) = a * u.dot v := by
  rw [dot_comm, mul_dot, dot_comm]

theorem dot_self_nonneg (v : Vec ℝ d) : 0 ≤ v.dot v := by
  rw [dot_eq_sum]
  exact Finset.sum_nonneg fun i _ => mul_self_nonneg _

theorem dot_self_eq_zero {v : Vec ℝ d} : v.dot v = 0 ↔ v = 0 := by
  constructor
  · intro h
    rw [dot_eq_sum, Finset.sum_eq_zero_iff_of_nonneg fun i _ => mul_self_nonneg _] at h
    exact ext_get fun i => by simpa using h i (Finset.mem_univ i)
  · intro h
    rw [h, zero_dot]

theorem dot_self_pos {v : Vec ℝ d} (h : v ≠ 0) : 0 < v.dot v :=
  lt_of_le_of_ne (dot_self_nonneg v) fun hzero => h (dot_self_eq_zero.1 hzero.symm)

theorem eq_of_sub_eq_zero {u v : Vec ℝ d} (h : u - v = 0) : u = v := by
  refine ext_get fun i => ?_
  have hget := congrArg (·.get i) h
  simpa [sub_eq_zero] using hget

theorem ext_dot {u v : Vec ℝ d} (h : ∀ w, u.dot w = v.dot w) : u = v := by
  have hzero : (u - v).dot (u - v) = 0 := by
    rw [sub_dot, h, sub_self]
  exact eq_of_sub_eq_zero (dot_self_eq_zero.1 hzero)

theorem add_mul_neg (u v : Vec ℝ d) (a : ℝ) : u + v * (-a) = u - v * a :=
  ext_get fun i => by simp; ring

theorem sub_zero_mul (v : Vec ℝ d) (a : ℝ) :
    v - (0 : Vec ℝ d) * a = v :=
  ext_get fun i => by simp

theorem sub_dot_sub (u v : Vec ℝ d) :
    (u - v).dot (u - v) = u.dot u - 2 * u.dot v + v.dot v := by
  rw [sub_dot, dot_sub, dot_sub, dot_comm v u]
  ring

/-- What is additive, such as an entry or a dot product, can be summed up term by term. -/
theorem map_foldl_add {β : Type} {f : Vec ℝ d → ℝ} (hf : ∀ u v, f (u + v) = f u + f v)
    (g : β → Vec ℝ d) (xs : List β) (start : Vec ℝ d) :
    f (xs.foldl (fun sum x => sum + g x) start) = f start + (xs.map fun x => f (g x)).sum := by
  induction xs generalizing start with
  | nil => exact (add_zero _).symm
  | cons x xs ih => rw [List.foldl_cons, ih, hf, List.map_cons, List.sum_cons, add_assoc]

end Vec

/-! ## Problems and their data -/

theorem beq_iff_eq_real (a b : ℝ) : (a == b) = true ↔ a = b :=
  decide_eq_true_iff

instance LawfulLabels.real : LawfulLabels ℝ where
  beq_one_iff := fun v => beq_iff_eq_real v 1
  beq_neg_one_iff := fun v => beq_iff_eq_real v (-1)
  neg_one_ne_one := by norm_num

namespace Problem

variable {d : Nat}

def table (p : Problem ℝ d) : Table ℝ where
  width := d
  rows := p.samples.map Sample.features

noncomputable def responses (p : Problem ℝ d) : List ℝ :=
  (p.samples.map Sample.label).map Label.value

/-- Every problem is posed by data: by its own. -/
theorem ofData_table (p : Problem ℝ d) : Problem.ofData p.table p.responses = .ok p := by
  have hread : Label.readSigns p.responses = .ok (p.samples.map Sample.label) :=
    Label.readFrom_map_value 0 _
  refine ofData_of_samples hread ?_ ?_
  · simp [table]
  · simp [table, List.zipWith_map]

end Problem

end RidgeLogistic
