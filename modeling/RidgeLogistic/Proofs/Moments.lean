import RidgeLogistic.Standardizer
import RidgeLogistic.Proofs.Exact

/-!
# The moments of a column

The deviation of a column is computed in one pass, by an update that never looks back. Over
exact arithmetic the moments after a prefix are those of the prefix: its mean, and the sum of
the squared distances to that mean (`foldl_push_empty`). An entry more moves the mean
and with it all the distances; the sum about another centre is the one about the mean plus a
multiple of the squared shift (`squaresAbout_eq`), and that is what the update adds.

So the deviation is that of the formula (`deviation_eq`): it is positive unless all entries
are the same, and it follows a change of unit.
-/

namespace RidgeLogistic

/-! ## Sums of squares -/

/-- The sum of the squared distances of a list to a centre. -/
def squaresAbout (centre : ℝ) (xs : List ℝ) : ℝ :=
  (xs.map fun v => (v - centre) ^ 2).sum

theorem squaresAbout_eq_zero_iff {centre : ℝ} {xs : List ℝ} :
    squaresAbout centre xs = 0 ↔ ∀ v ∈ xs, v = centre := by
  rw [squaresAbout, sum_sq_eq_zero_iff]
  simp only [sub_eq_zero]

theorem mean_eq (xs : List ℝ) : mean xs = xs.sum / xs.length := by
  rw [mean, total_eq_sum]

/-- This holds of the empty list too, whose mean is no number to rely on. -/
theorem length_mul_mean (xs : List ℝ) : xs.length * mean xs = xs.sum := by
  cases xs with
  | nil => simp
  | cons v xs =>
      have hne : ((v :: xs).length : ℝ) ≠ 0 := Nat.cast_ne_zero.2 (Nat.succ_ne_zero _)
      rw [mean_eq, mul_div_cancel₀ _ hne]

theorem squaresAbout_eq_sub_add (centre : ℝ) (xs : List ℝ) :
    squaresAbout centre xs =
      squaresAbout 0 xs - 2 * centre * xs.sum + xs.length * centre ^ 2 := by
  induction xs with
  | nil => simp [squaresAbout]
  | cons v xs ih =>
      simp only [squaresAbout, List.map_cons, List.sum_cons, List.length_cons] at ih ⊢
      rw [ih]
      push_cast
      ring

/-- The sum is least about the mean. -/
theorem squaresAbout_eq (centre : ℝ) (xs : List ℝ) :
    squaresAbout centre xs =
      squaresAbout (mean xs) xs + xs.length * (mean xs - centre) ^ 2 := by
  rw [squaresAbout_eq_sub_add centre, squaresAbout_eq_sub_add (mean xs), ← length_mul_mean]
  ring

/-! ## The one pass -/

theorem mean_concat (xs : List ℝ) (v : ℝ) :
    mean (xs ++ [v]) = mean xs + (v - mean xs) / (xs.length + 1) := by
  have hpos : (0 : ℝ) < xs.length + 1 := by positivity
  rw [mean_eq, List.sum_append, List.sum_singleton, List.length_append, List.length_singleton,
    ← length_mul_mean]
  push_cast
  field_simp
  ring

theorem squaresAbout_mean_concat (xs : List ℝ) (v : ℝ) :
    squaresAbout (mean (xs ++ [v])) (xs ++ [v]) =
      squaresAbout (mean xs) xs + (v - mean (xs ++ [v])) * (v - mean xs) := by
  have hpos : (0 : ℝ) < xs.length + 1 := by positivity
  have hshift : (xs.length : ℝ) * (mean (xs ++ [v]) - mean xs) = v - mean (xs ++ [v]) := by
    rw [mean_concat]
    field_simp
    ring
  have hlast : squaresAbout (mean (xs ++ [v])) (xs ++ [v]) =
      squaresAbout (mean (xs ++ [v])) xs + (v - mean (xs ++ [v])) ^ 2 := by
    rw [squaresAbout, List.map_append, List.sum_append, List.map_singleton,
      List.sum_singleton, squaresAbout]
  rw [hlast, squaresAbout_eq]
  linear_combination (mean (xs ++ [v]) - mean xs) * hshift

theorem foldl_push_empty (xs : List ℝ) :
    xs.foldl Moments.push .empty = ⟨xs.length, mean xs, squaresAbout (mean xs) xs⟩ := by
  induction xs using List.reverseRecOn with
  | nil =>
      rw [mean_eq, List.length_nil, Nat.cast_zero, div_zero]
      rfl
  | append_singleton xs v ih =>
      have hcount : ((xs.length + 1 : ℕ) : ℝ) = xs.length + 1 := Nat.cast_succ _
      have hmean : mean xs + (v - mean xs) / ((xs.length + 1 : ℕ) : ℝ) = mean (xs ++ [v]) := by
        rw [hcount, mean_concat]
      rw [List.foldl_append, ih, squaresAbout_mean_concat, ← hmean, List.length_append]
      rfl

theorem deviation_eq (xs : List ℝ) :
    deviation xs = √(squaresAbout (mean xs) xs / xs.length) := by
  rw [deviation, foldl_push_empty]
  rfl

/-! ## Constant columns -/

theorem mean_of_forall_eq {xs : List ℝ} (hne : xs ≠ []) {c : ℝ} (h : ∀ v ∈ xs, v = c) :
    mean xs = c := by
  have hlength : (xs.length : ℝ) ≠ 0 :=
    Nat.cast_ne_zero.2 fun hzero => hne (List.eq_nil_of_length_eq_zero hzero)
  have hsum : xs.sum = xs.length * c := by
    rw [List.eq_replicate_of_mem h, List.sum_replicate, List.length_replicate, nsmul_eq_mul]
  rw [mean_eq, hsum, mul_div_cancel_left₀ _ hlength]

theorem deviation_of_forall_eq {xs : List ℝ} (hne : xs ≠ []) {c : ℝ} (h : ∀ v ∈ xs, v = c) :
    deviation xs = 0 := by
  rw [deviation_eq, mean_of_forall_eq hne h, squaresAbout_eq_zero_iff.2 h, zero_div,
    Real.sqrt_zero]

/-- Without a positive deviation every entry is the mean. -/
theorem eq_mean_of_not_deviation_pos {xs : List ℝ} (h : ¬0 < deviation xs) {v : ℝ}
    (hv : v ∈ xs) : v = mean xs := by
  have hlength : (0 : ℝ) < xs.length := Nat.cast_pos.2 (List.length_pos_of_mem hv)
  rw [deviation_eq, Real.sqrt_pos, not_lt, div_nonpos_iff] at h
  have hsquares : squaresAbout (mean xs) xs ≤ 0 := by
    rcases h with ⟨-, hneg⟩ | ⟨hnonpos, -⟩
    · exact absurd hlength (not_lt.2 hneg)
    · exact hnonpos
  exact squaresAbout_eq_zero_iff.1 (le_antisymm hsquares sum_sq_nonneg) v hv

/-! ## Changes of unit -/

/-- A change of the unit that a column is measured in. -/
structure UnitChange where
  factor : ℝ
  shift : ℝ
  factor_pos : 0 < factor

namespace UnitChange

variable (u : UnitChange)

def apply (v : ℝ) : ℝ :=
  u.factor * v + u.shift

theorem apply_sub_apply (v w : ℝ) : u.apply v - u.apply w = u.factor * (v - w) := by
  rw [apply, apply]
  ring

theorem mean_map {xs : List ℝ} (hne : xs ≠ []) : mean (xs.map u.apply) = u.apply (mean xs) := by
  have hlength : (xs.length : ℝ) ≠ 0 :=
    Nat.cast_ne_zero.2 fun hzero => hne (List.eq_nil_of_length_eq_zero hzero)
  have hsum : (xs.map u.apply).sum = u.factor * xs.sum + xs.length * u.shift := by
    clear hne hlength
    induction xs with
    | nil => simp
    | cons v xs ih =>
        simp only [List.map_cons, List.sum_cons, List.length_cons, ih, apply]
        push_cast
        ring
  rw [mean_eq, hsum, List.length_map, apply, mean_eq]
  field_simp

theorem squaresAbout_map (centre : ℝ) (xs : List ℝ) :
    squaresAbout (u.apply centre) (xs.map u.apply) = u.factor ^ 2 * squaresAbout centre xs := by
  rw [squaresAbout, squaresAbout, List.map_map, ← List.sum_map_mul_left]
  refine congrArg List.sum (List.map_congr_left fun v _ => ?_)
  rw [Function.comp_apply, apply_sub_apply, mul_pow]

theorem deviation_map {xs : List ℝ} (hne : xs ≠ []) :
    deviation (xs.map u.apply) = u.factor * deviation xs := by
  rw [deviation_eq, deviation_eq, u.mean_map hne, squaresAbout_map, List.length_map,
    mul_div_assoc, Real.sqrt_mul (sq_nonneg _), Real.sqrt_sq u.factor_pos.le]

end UnitChange

end RidgeLogistic
