import RidgeLogistic.InitialStep
import RidgeLogistic.Proofs.Exact

/-!
# The greatest eigenvalue of the Gram matrix

Over exact arithmetic an eigensolver can be right: `ExactEigensolver` says that one gives the
eigenvalues of every symmetric matrix and no other numbers, and the spectral theorem
provides such a solver, so that nothing later is proved of none.

The Gram matrix of a table is symmetric, and its quadratic form at `v` is the mean over the
rows of the squared projections `(xᵢ · v)²` (`Table.dot_mulVec_gram`). What the library takes
the greatest finite value of is then its whole spectrum, and the number it finds bounds that
form by the squared length of `v` (`Table.meanSquare_le`). The bound is the only use that
is made of eigenvectors: a symmetric matrix taken off a multiple of the identity that no
eigenvalue exceeds is left without a negative eigenvalue.
-/

namespace RidgeLogistic

variable {d : Nat}

/-! ## Square matrices -/

namespace Square

noncomputable def mulVec (a : Square ℝ d) (v : Vec ℝ d) : Vec ℝ d :=
  a.map fun row => row.dot v

def Symmetric (a : Square ℝ d) : Prop :=
  ∀ i j, (a.get i).get j = (a.get j).get i

def IsEigenvalue (a : Square ℝ d) (μ : ℝ) : Prop :=
  ∃ v, v ≠ 0 ∧ mulVec a v = v * μ

def entries (a : Square ℝ d) : Matrix (Fin d) (Fin d) ℝ :=
  Matrix.of fun i j => (a.get i).get j

theorem get_mulVec (a : Square ℝ d) (v : Vec ℝ d) (i : Fin d) :
    (mulVec a v).get i = (entries a).mulVec v.get i := by
  rw [mulVec, Vec.get_map, Vec.dot_eq_sum]
  rfl

theorem Symmetric.isHermitian {a : Square ℝ d} (ha : Symmetric a) :
    (entries a).IsHermitian := by
  apply Matrix.IsHermitian.ext
  intro i j
  exact ha j i

theorem isEigenvalue_iff {a : Square ℝ d} {μ : ℝ} :
    IsEigenvalue a μ ↔ ∃ w : Fin d → ℝ, w ≠ 0 ∧ (entries a).mulVec w = μ • w := by
  constructor
  · rintro ⟨v, hv, heq⟩
    refine ⟨v.get, ?_, ?_⟩
    · intro h
      exact hv (Vec.ext_get fun i => by rw [h, Vec.get_zero]; rfl)
    · funext i
      rw [← get_mulVec, heq, Vec.get_mul, Pi.smul_apply, smul_eq_mul, mul_comm]
  · rintro ⟨w, hw, heq⟩
    have hget : (Vec.ofFn w).get = w := funext fun i => Vec.get_ofFn w i
    refine ⟨Vec.ofFn w, ?_, ?_⟩
    · intro h
      apply hw
      rw [← hget, h]
      exact funext fun i => Vec.get_zero i
    · refine Vec.ext_get fun i => ?_
      rw [get_mulVec, hget, heq, Vec.get_mul, hget, Pi.smul_apply, smul_eq_mul, mul_comm]

theorem isEigenvalue_iff_mem_spectrum {a : Square ℝ d} {μ : ℝ} :
    IsEigenvalue a μ ↔ μ ∈ spectrum ℝ (entries a) := by
  rw [isEigenvalue_iff, spectrum.mem_iff, Matrix.isUnit_iff_isUnit_det, isUnit_iff_ne_zero,
    not_not, ← Matrix.exists_mulVec_eq_zero_iff]
  simp only [Matrix.sub_mulVec, Algebra.algebraMap_eq_smul_one, Matrix.smul_mulVec,
    Matrix.one_mulVec, sub_eq_zero, eq_comm]

theorem isEigenvalue_sub {a : Square ℝ d} {c ν : ℝ} {w : Fin d → ℝ} (hw : w ≠ 0)
    (h : (c • (1 : Matrix (Fin d) (Fin d) ℝ) - entries a).mulVec w = ν • w) :
    IsEigenvalue a (c - ν) := by
  refine isEigenvalue_iff.2 ⟨w, hw, ?_⟩
  rw [Matrix.sub_mulVec, Matrix.smul_mulVec, Matrix.one_mulVec] at h
  rw [sub_smul, ← h, sub_sub_cancel]

/-- A number that no eigenvalue exceeds bounds the quadratic form. -/
theorem dot_mulVec_le {a : Square ℝ d} (ha : Symmetric a) {largest : ℝ}
    (hle : ∀ μ, IsEigenvalue a μ → μ ≤ largest) (v : Vec ℝ d) :
    v.dot (mulVec a v) ≤ largest * v.dot v := by
  have hshift : (largest • (1 : Matrix (Fin d) (Fin d) ℝ) - entries a).IsHermitian :=
    (Matrix.isHermitian_one.smul (IsSelfAdjoint.all largest)).sub ha.isHermitian
  have hpos : (largest • (1 : Matrix (Fin d) (Fin d) ℝ) - entries a).PosSemidef := by
    rw [hshift.posSemidef_iff_eigenvalues_nonneg]
    intro i
    have hne : ⇑(hshift.eigenvectorBasis i) ≠ 0 := by
      intro h
      exact hshift.eigenvectorBasis.orthonormal.ne_zero i (PiLp.ext fun j => congrFun h j)
    have h := hle _ (isEigenvalue_sub hne (hshift.mulVec_eigenvectorBasis i))
    rw [Pi.zero_apply]
    linarith
  have h := hpos.dotProduct_mulVec_nonneg v.get
  rw [Matrix.sub_mulVec, Matrix.smul_mulVec, Matrix.one_mulVec, star_trivial,
    dotProduct_sub, dotProduct_smul, smul_eq_mul, sub_nonneg] at h
  rw [Vec.dot_eq_sum, Vec.dot_eq_sum]
  simp only [get_mulVec]
  exact h

end Square

/-! ## Exact eigensolvers -/

/-- An eigensolver that gives the eigenvalues of every symmetric matrix, and no other
numbers. -/
class ExactEigensolver [Eigensolver ℝ] : Prop where
  mem_eigenvalues_iff : ∀ {d : Nat} {a : Square ℝ d}, Square.Symmetric a → ∀ {μ : ℝ},
    μ ∈ Eigensolver.eigenvalues a ↔ Square.IsEigenvalue a μ

open Classical in
/-- The eigenvalues that the spectral theorem gives. -/
noncomputable instance Eigensolver.spectral : Eigensolver ℝ where
  eigenvalues a := if ha : Square.Symmetric a then List.ofFn ha.isHermitian.eigenvalues else []

theorem Eigensolver.eigenvalues_eq {a : Square ℝ d} (ha : Square.Symmetric a) :
    Eigensolver.eigenvalues a = List.ofFn ha.isHermitian.eigenvalues :=
  dif_pos ha

instance : ExactEigensolver where
  mem_eigenvalues_iff {d a} ha μ := by
    rw [Eigensolver.eigenvalues_eq ha, List.mem_ofFn, Square.isEigenvalue_iff_mem_spectrum,
      ha.isHermitian.spectrum_real_eq_range_eigenvalues, Set.mem_range]

/-! ## The greatest of a list -/

theorem largestFinite?_append_singleton (values : List ℝ) (v : ℝ) :
    largestFinite? (values ++ [v]) = some ((largestFinite? values).elim v (max · v)) := by
  rw [largestFinite?_concat values rfl]
  cases largestFinite? values with
  | none => rfl
  | some b =>
      show some (ite _ _ _) = some (max b v)
      split
      · next h => rw [max_eq_right (le_of_lt h)]
      · next h => rw [max_eq_left (le_of_not_gt h)]

theorem largestFinite?_eq_none_iff {values : List ℝ} :
    largestFinite? values = none ↔ values = [] := by
  cases values using List.reverseRecOn with
  | nil => exact iff_of_true rfl rfl
  | append_singleton values v => simp [largestFinite?_append_singleton]

theorem largestFinite?_spec {values : List ℝ} {largest : ℝ}
    (h : largestFinite? values = some largest) :
    largest ∈ values ∧ ∀ v ∈ values, v ≤ largest := by
  induction values using List.reverseRecOn generalizing largest with
  | nil => injection h
  | append_singleton values v ih =>
      rw [largestFinite?_append_singleton] at h
      injection h with h
      subst h
      cases hbest : largestFinite? values with
      | none =>
          rw [largestFinite?_eq_none_iff.1 hbest]
          simp
      | some b =>
          obtain ⟨hmem, hle⟩ := ih hbest
          refine ⟨?_, ?_⟩
          · rcases max_choice b v with hmax | hmax
            · rw [Option.elim_some, hmax]
              exact List.mem_append_left _ hmem
            · rw [Option.elim_some, hmax]
              exact List.mem_append_right _ (List.mem_singleton_self v)
          · intro u hu
            rcases List.mem_append.1 hu with hu | hu
            · exact (hle u hu).trans (le_max_left b v)
            · exact (List.mem_singleton.1 hu).le.trans (le_max_right b v)

/-! ## Gram matrices -/

namespace Table

theorem get_gram (x : Table ℝ) (i j : Fin x.width) :
    (x.gram.get i).get j =
      (x.rows.map fun row => row.get i * row.get j).sum / x.height := by
  rw [gram, Vec.get_ofFn, Vec.get_ofFn, total_eq_sum, column, column, List.zipWith_map,
    List.zipWith_self]

theorem symmetric_gram (x : Table ℝ) : Square.Symmetric x.gram := by
  intro i j
  rw [get_gram, get_gram]
  simp only [mul_comm]

theorem sum_products_eq (rows : List (Vec ℝ d)) (v : Vec ℝ d) :
    ∑ i, v.get i * ∑ j, (rows.map fun row => row.get i * row.get j).sum * v.get j =
      (rows.map fun row => row.dot v ^ 2).sum := by
  induction rows with
  | nil => simp
  | cons row rows ih =>
      have hrow : ∑ i, v.get i * ∑ j, row.get i * row.get j * v.get j = row.dot v ^ 2 := by
        rw [pow_two, Vec.dot_eq_sum, Finset.sum_mul]
        refine Finset.sum_congr rfl fun i _ => ?_
        rw [Finset.mul_sum, Finset.mul_sum]
        exact Finset.sum_congr rfl fun j _ => by ring
      simp only [List.map_cons, List.sum_cons, add_mul, Finset.sum_add_distrib, mul_add]
      rw [ih, hrow]

/-- The mean over the rows of their squared projections. -/
noncomputable def meanSquare (x : Table ℝ) (v : Vec ℝ x.width) : ℝ :=
  (x.rows.map fun row => row.dot v ^ 2).sum / x.height

theorem meanSquare_nonneg (x : Table ℝ) (v : Vec ℝ x.width) : 0 ≤ x.meanSquare v :=
  div_nonneg sum_sq_nonneg (Nat.cast_nonneg _)

theorem meanSquare_eq_zero_iff {x : Table ℝ} (hrows : x.height ≠ 0) {v : Vec ℝ x.width} :
    x.meanSquare v = 0 ↔ ∀ row ∈ x.rows, row.dot v = 0 := by
  rw [meanSquare, div_eq_zero_iff, or_iff_left (Nat.cast_ne_zero.2 hrows), sum_sq_eq_zero_iff]

/-- The quadratic form of the Gram matrix is the mean of the squared projections. -/
theorem dot_mulVec_gram (x : Table ℝ) (v : Vec ℝ x.width) :
    v.dot (Square.mulVec x.gram v) = x.meanSquare v := by
  rw [meanSquare, ← sum_products_eq, Vec.dot_eq_sum, Finset.sum_div]
  refine Finset.sum_congr rfl fun i _ => ?_
  rw [Square.mulVec, Vec.get_map, Vec.dot_eq_sum, mul_div_assoc, Finset.sum_div]
  congr 1
  refine Finset.sum_congr rfl fun j _ => ?_
  rw [get_gram]
  ring

variable [Eigensolver ℝ] [ExactEigensolver] {x : Table ℝ} {largest : ℝ}

theorem largestEigenvalue_spec (h : x.largestEigenvalue = .ok largest) :
    Square.IsEigenvalue x.gram largest ∧
      ∀ μ, Square.IsEigenvalue x.gram μ → μ ≤ largest := by
  rw [largestEigenvalue] at h
  split at h
  · next best hbest =>
      injection h with h
      subst h
      obtain ⟨hmem, hle⟩ := largestFinite?_spec hbest
      refine ⟨(ExactEigensolver.mem_eigenvalues_iff x.symmetric_gram).1 hmem, ?_⟩
      intro μ hμ
      exact hle μ ((ExactEigensolver.mem_eigenvalues_iff x.symmetric_gram).2 hμ)
  · injection h

theorem largestEigenvalue_eq_ok_iff :
    x.largestEigenvalue = .ok largest ↔
      Square.IsEigenvalue x.gram largest ∧
        ∀ μ, Square.IsEigenvalue x.gram μ → μ ≤ largest := by
  refine ⟨largestEigenvalue_spec, ?_⟩
  rintro ⟨heigen, hle⟩
  cases hfound : x.largestEigenvalue with
  | ok best =>
      obtain ⟨hbest, hgreatest⟩ := largestEigenvalue_spec hfound
      rw [le_antisymm (hle best hbest) (hgreatest largest heigen)]
  | error fault =>
      have hmem := (ExactEigensolver.mem_eigenvalues_iff x.symmetric_gram).2 heigen
      rw [largestEigenvalue] at hfound
      split at hfound
      · injection hfound
      · next hnone =>
          rw [largestFinite?_eq_none_iff.1 hnone] at hmem
          exact absurd hmem List.not_mem_nil

theorem meanSquare_le (h : x.largestEigenvalue = .ok largest) (v : Vec ℝ x.width) :
    x.meanSquare v ≤ largest * v.dot v := by
  rw [← dot_mulVec_gram]
  exact Square.dot_mulVec_le x.symmetric_gram (largestEigenvalue_spec h).2 v

/-- The bound is taken, by an eigenvector. -/
theorem exists_meanSquare_eq (h : x.largestEigenvalue = .ok largest) :
    ∃ v, v ≠ 0 ∧ x.meanSquare v = largest * v.dot v := by
  obtain ⟨v, hv, heq⟩ := (largestEigenvalue_spec h).1
  refine ⟨v, hv, ?_⟩
  rw [← dot_mulVec_gram, heq, Vec.dot_mul]

theorem largestEigenvalue_nonneg (h : x.largestEigenvalue = .ok largest) : 0 ≤ largest := by
  obtain ⟨v, hv, heq⟩ := exists_meanSquare_eq h
  have hnonneg := x.meanSquare_nonneg v
  rw [heq] at hnonneg
  exact nonneg_of_mul_nonneg_left hnonneg (Vec.dot_self_pos hv)

end Table

end RidgeLogistic
