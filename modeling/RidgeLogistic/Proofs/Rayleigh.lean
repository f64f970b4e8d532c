import RidgeLogistic.Proofs.FirstStep

/-!
# The initial step as a Rayleigh quotient

The initial step is defined by an eigenvalue, and this file says what that makes of it without
eigenvalues: its inverse is the greatest value that `|X v|² / N + penalty * |v|²` takes against
`|v|²`, and is taken at some `v` (`initialStep_rayleigh`).

A symmetric matrix that has an entry has an eigenvalue, so a table with a column always has a
greatest one. It is zero for the zero table only: `meanSquare_le` at a row of the table leaves
nothing of its length. So the one way that is left to fail is the one that the refusal names.

What follows for other penalties and other tables follows from the quotient. Columns that are
appended leave it as it was on the vectors that are zero there (`Table.meanSquare_beside`), so
its greatest value can only grow.
-/

namespace RidgeLogistic

variable {d e : Nat}

/-! ## Columns side by side -/

namespace Vec

def append {α : Type} (u : Vec α d) (v : Vec α e) : Vec α (d + e) :=
  ⟨u.toList ++ v.toList, by simp⟩

theorem append_dot_append (u v : Vec ℝ d) (u' v' : Vec ℝ e) :
    (u.append u').dot (v.append v') = u.dot v + u'.dot v' := by
  have hlength : u.toList.length = v.toList.length := by simp
  rw [dot, dot, dot, total_eq_sum, total_eq_sum, total_eq_sum, toList_zipWith, append, append,
    List.zipWith_append hlength, List.sum_append]
  rfl

theorem append_dot_append_zero (u v : Vec ℝ d) (u' : Vec ℝ e) :
    (u.append u').dot (v.append 0) = u.dot v := by
  rw [append_dot_append, dot_zero, add_zero]

end Vec

namespace Table

/-- The table with further columns to the right, given row by row. -/
def beside {α : Type} (x : Table α) (columns : List (Vec α e)) : Table α where
  width := x.width + e
  rows := List.zipWith Vec.append x.rows columns

theorem height_beside {α : Type} {x : Table α} {columns : List (Vec α e)}
    (h : columns.length = x.height) : (x.beside columns).height = x.height := by
  show (List.zipWith Vec.append x.rows columns).length = _
  rw [List.length_zipWith, h]
  exact Nat.min_self _

theorem meanSquare_beside {x : Table ℝ} {columns : List (Vec ℝ e)}
    (h : columns.length = x.height) (v : Vec ℝ x.width) :
    (x.beside columns).meanSquare (v.append 0) = x.meanSquare v := by
  have hrows : (x.beside columns).rows.map (fun row => row.dot (v.append 0) ^ 2) =
      x.rows.map fun row => row.dot v ^ 2 := calc
    _ = List.zipWith (fun row _ => row.dot v ^ 2) x.rows columns := by
      refine List.map_zipWith.trans (congrArg (List.zipWith · x.rows columns) ?_)
      exact funext₂ fun row c => congrArg (· ^ 2) (Vec.append_dot_append_zero row v c)
    _ = (List.map Prod.fst (x.rows.zip columns)).map fun row => row.dot v ^ 2 := by
      rw [← List.map_uncurry_zip_eq_zipWith, List.map_map]
      rfl
    _ = x.rows.map fun row => row.dot v ^ 2 := by rw [List.map_fst_zip h.ge]
  show ((x.beside columns).rows.map _).sum / ((x.beside columns).height : ℝ) = _
  rw [hrows, height_beside h, meanSquare]

def IsZero (x : Table ℝ) : Prop :=
  ∀ row ∈ x.rows, row = 0

end Table

/-! ## The greatest eigenvalue -/

theorem Square.Symmetric.exists_isEigenvalue {a : Square ℝ d} (ha : Symmetric a) (hd : d ≠ 0) :
    ∃ μ, IsEigenvalue a μ := by
  refine ⟨ha.isHermitian.eigenvalues ⟨0, Nat.pos_of_ne_zero hd⟩, ?_⟩
  rw [isEigenvalue_iff_mem_spectrum, ha.isHermitian.spectrum_real_eq_range_eigenvalues]
  exact Set.mem_range_self _

section

variable [Eigensolver ℝ] [ExactEigensolver]

namespace Table

variable {x : Table ℝ} {largest : ℝ}

theorem exists_largestEigenvalue (hcols : x.width ≠ 0) :
    ∃ largest, x.largestEigenvalue = .ok largest := by
  obtain ⟨μ, hμ⟩ := x.symmetric_gram.exists_isEigenvalue hcols
  have hmem := (ExactEigensolver.mem_eigenvalues_iff x.symmetric_gram).2 hμ
  rw [largestEigenvalue]
  split
  · exact ⟨_, rfl⟩
  · next hnone =>
      rw [largestFinite?_eq_none_iff.1 hnone] at hmem
      exact absurd hmem List.not_mem_nil

theorem largestEigenvalue_eq_zero_iff (hrows : x.height ≠ 0)
    (h : x.largestEigenvalue = .ok largest) : largest = 0 ↔ x.IsZero := by
  constructor
  · rintro rfl row hrow
    have hmean : x.meanSquare row = 0 :=
      le_antisymm ((meanSquare_le h row).trans_eq (zero_mul _)) (x.meanSquare_nonneg row)
    exact Vec.dot_self_eq_zero.1 ((meanSquare_eq_zero_iff hrows).1 hmean row hrow)
  · intro hzero
    obtain ⟨v, hv, heq⟩ := exists_meanSquare_eq h
    have hproducts : ∀ row ∈ x.rows, row.dot v = 0 := fun row hrow => by
      rw [hzero row hrow, Vec.zero_dot]
    rw [(meanSquare_eq_zero_iff hrows).2 hproducts] at heq
    exact (mul_eq_zero.1 heq.symm).resolve_right (Vec.dot_self_pos hv).ne'

/-- A vector that takes the greatest value on the first columns takes it on all of them, with
zeros on the others. -/
theorem largestEigenvalue_le_beside {columns : List (Vec ℝ e)}
    (hlength : columns.length = x.height) {largest' : ℝ}
    (h : x.largestEigenvalue = .ok largest)
    (h' : (x.beside columns).largestEigenvalue = .ok largest') : largest ≤ largest' := by
  obtain ⟨v, hv, heq⟩ := exists_meanSquare_eq h
  have hle := meanSquare_le h' (v.append 0)
  rw [meanSquare_beside hlength, heq] at hle
  have hdot := Vec.append_dot_append_zero v v (0 : Vec ℝ e)
  exact le_of_mul_le_mul_right (hle.trans_eq (congrArg (largest' * ·) hdot))
    (Vec.dot_self_pos hv)

end Table

/-! ## The step -/

variable {x : Table ℝ} {penalty : ℝ}

omit [ExactEigensolver] in
theorem initialStep_of_pos (hrows : x.height ≠ 0) (hcols : x.width ≠ 0) (hpen : 0 ≤ penalty)
    {largest : ℝ} (h : x.largestEigenvalue = .ok largest) (hpos : 0 < largest + penalty) :
    initialStep x x.height x.width penalty = .ok (1 / (largest + penalty)) :=
  initialStep_eq_ok_iff.2 ⟨⟨rfl, rfl⟩, ⟨hrows, hcols⟩, hpen, largest, h, hpos, rfl⟩

theorem exists_initialStep (hrows : x.height ≠ 0) (hcols : x.width ≠ 0) (hpen : 0 ≤ penalty)
    (hcurved : ¬(x.IsZero ∧ penalty = 0)) :
    ∃ largest, x.largestEigenvalue = .ok largest ∧ 0 < largest + penalty ∧
      initialStep x x.height x.width penalty = .ok (1 / (largest + penalty)) := by
  obtain ⟨largest, h⟩ := Table.exists_largestEigenvalue hcols
  have hnonneg := Table.largestEigenvalue_nonneg h
  have hpos : 0 < largest + penalty := by
    by_contra hneg
    have hlargest : largest = 0 := by linarith
    exact hcurved ⟨(Table.largestEigenvalue_eq_zero_iff hrows h).1 hlargest, by linarith⟩
  exact ⟨largest, h, hpos, initialStep_of_pos hrows hcols hpen h hpos⟩

theorem initialStep_of_isZero (hrows : x.height ≠ 0) (hcols : x.width ≠ 0) (hzero : x.IsZero) :
    initialStep x x.height x.width 0 = .error (.hyperparameter .noCurvature) := by
  obtain ⟨largest, h⟩ := Table.exists_largestEigenvalue hcols
  have hlargest := (Table.largestEigenvalue_eq_zero_iff hrows h).2 hzero
  have hshape : ¬(x.height ≠ x.height ∨ x.width ≠ x.width) := by simp
  rw [initialStep, if_neg hshape, if_neg (not_or.2 ⟨hrows, hcols⟩),
    checkPenalty_eq_ok_iff.2 le_rfl, h, hlargest]
  exact if_neg (by simp)

/-- For a table with a row and a column there is a step unless both the table and the penalty are
zero. Its inverse is the greatest value of the mean square of the products with the rows plus the
penalty, against the squared length. So a greater penalty gives a smaller step, and more columns
no greater one. -/
theorem initialStep_rayleigh (hrows : x.height ≠ 0) (hcols : x.width ≠ 0)
    (hpen : 0 ≤ penalty) :
    (∀ fault, initialStep x x.height x.width penalty = .error fault ↔
      (x.IsZero ∧ penalty = 0) ∧ fault = .hyperparameter .noCurvature) ∧
    (¬(x.IsZero ∧ penalty = 0) →
      ∃ η, initialStep x x.height x.width penalty = .ok η ∧ 0 < η ∧
        (∀ v, x.meanSquare v + penalty * v.dot v ≤ v.dot v / η) ∧
        (∃ v, v ≠ 0 ∧ x.meanSquare v + penalty * v.dot v = v.dot v / η) ∧
        (∀ penalty', penalty < penalty' →
          ∃ η', initialStep x x.height x.width penalty' = .ok η' ∧ η' < η) ∧
        ∀ (e : Nat) (columns : List (Vec ℝ e)), columns.length = x.height →
          ∃ η', initialStep (x.beside columns) x.height (x.width + e) penalty = .ok η' ∧
            η' ≤ η) := by
  refine ⟨fun fault => ?_, fun hcurved => ?_⟩
  · by_cases hzero : x.IsZero ∧ penalty = 0
    · rw [hzero.2, initialStep_of_isZero hrows hcols hzero.1]
      exact ⟨fun h => ⟨⟨hzero.1, rfl⟩, (Except.error.inj h).symm⟩, fun h => by rw [h.2]⟩
    · obtain ⟨largest, -, -, hstep⟩ := exists_initialStep hrows hcols hpen hzero
      rw [hstep]
      exact iff_of_false (fun h => by injection h) fun h => hzero h.1
  · obtain ⟨largest, h, hpos, hstep⟩ := exists_initialStep hrows hcols hpen hcurved
    have hinverse : ∀ v : Vec ℝ x.width,
        v.dot v / (1 / (largest + penalty)) = largest * v.dot v + penalty * v.dot v := by
      intro v
      rw [div_div_eq_mul_div, div_one]
      ring
    refine ⟨_, hstep, one_div_pos.2 hpos, fun v => ?_, ?_, fun penalty' hlt => ?_, ?_⟩
    · rw [hinverse]
      exact add_le_add_left (Table.meanSquare_le h v) _
    · obtain ⟨v, hv, heq⟩ := Table.exists_meanSquare_eq h
      exact ⟨v, hv, by rw [hinverse, heq]⟩
    · have hpos' : 0 < largest + penalty' := by linarith
      refine ⟨_, initialStep_of_pos hrows hcols (by linarith) h hpos', ?_⟩
      exact one_div_lt_one_div_of_lt hpos (by linarith)
    · intro e columns hlength
      have hheight := Table.height_beside hlength
      have hcols' : (x.beside columns).width ≠ 0 := by
        show x.width + e ≠ 0
        omega
      obtain ⟨largest', h'⟩ := Table.exists_largestEigenvalue hcols'
      have hle := Table.largestEigenvalue_le_beside hlength h h'
      have hstep' := initialStep_of_pos (by rwa [hheight]) hcols' hpen h' (by linarith)
      rw [hheight] at hstep'
      exact ⟨_, hstep', one_div_le_one_div_of_le hpos (by linarith)⟩

end

/-- Two columns of different length: the longer one decides, and what the theorem says of the step
fixes it. -/
theorem initialStep_rayleigh_diagonal :
    let x : Table ℝ := ⟨2, [⟨[2, 0], rfl⟩, ⟨[0, 1], rfl⟩]⟩
    x.height ≠ 0 ∧ x.width ≠ 0 ∧ (0 : ℝ) ≤ 1 / 2 ∧
      initialStep x x.height x.width (1 / 2) = .ok (2 / 5) ∧
      ∃ η', initialStep (x.beside [.replicate 1 3, .replicate 1 4]) x.height 3 (1 / 2) = .ok η' ∧
        η' ≤ 2 / 5 := by
  intro x
  have hpen : (0 : ℝ) ≤ 1 / 2 := by norm_num
  have hrows : x.height ≠ 0 := two_ne_zero
  have hcols : x.width ≠ 0 := two_ne_zero
  obtain ⟨-, hsteps⟩ := initialStep_rayleigh hrows hcols hpen
  obtain ⟨η, hη, hpos, hle, ⟨v, hv, heq⟩, -, hbeside⟩ := hsteps fun h => by norm_num at h
  have hform : ∀ v : Vec ℝ 2,
      x.meanSquare v + 1 / 2 * v.dot v = 5 / 2 * v.dot v - 3 / 2 * v.get 1 ^ 2 := by
    intro v
    have hsquare : x.meanSquare v = (4 * v.get 0 ^ 2 + v.get 1 ^ 2) / 2 := by
      simp [Table.meanSquare, Table.height, x, Vec.dot_eq_sum, Vec.get]
      ring
    rw [hsquare, Vec.dot_eq_sum, Fin.sum_univ_two]
    ring
  have hdot : ∀ v : Vec ℝ 2, v.dot v / η = v.dot v * (1 / η) := fun v => div_eq_mul_one_div _ _
  -- The first axis shows that the inverse of the step is no less than `5 / 2`, and the vector that
  -- takes the greatest value that it is no more.
  have hlow : 5 / 2 ≤ 1 / η := by
    have haxis := hle ⟨[1, 0], rfl⟩
    rw [hform, hdot, Vec.dot_eq_sum, Fin.sum_univ_two] at haxis
    norm_num [Vec.get] at haxis ⊢
    exact haxis
  have hhigh : 1 / η ≤ 5 / 2 := by
    rw [hform, hdot] at heq
    refine le_of_mul_le_mul_left ?_ (Vec.dot_self_pos hv)
    linarith [sq_nonneg (v.get 1)]
  have hvalue : η = 2 / 5 := by
    have hinverse : 1 / η = 5 / 2 := le_antisymm hhigh hlow
    rw [← one_div_one_div η, hinverse]
    norm_num
  subst hvalue
  exact ⟨hrows, hcols, hpen, hη, hbeside 1 _ rfl⟩

end RidgeLogistic
