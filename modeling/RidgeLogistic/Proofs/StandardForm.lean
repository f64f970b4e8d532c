import RidgeLogistic.Proofs.Units

/-!
# Standard form

A standardised table has columns of mean zero and variance one, apart from those that were
constant, which are zero. To standardise it again changes nothing.

The scores by a column are themselves a change of unit of it (`standardUnit`): the mean is the new
zero, and the divisor is the new unit. So what the moments of a column do under a change of unit
says what the moments of its scores are, and a table in standard form is the given one in other
units, which standardises to the same. Nothing here sums up a column again.

The divisor and the mean come from different passes over the column. What holds them together is
that the deviation of the one pass is the root of the variance, and so is positive exactly where
two entries differ (`deviation_pos_iff`).
-/

namespace RidgeLogistic

/-! ## Variance -/

/-- The mean of the squared distances to the mean. -/
noncomputable def variance (xs : List ℝ) : ℝ :=
  squaresAbout (mean xs) xs / xs.length

theorem deviation_sq (xs : List ℝ) : deviation xs ^ 2 = variance xs := by
  have hnonneg : 0 ≤ variance xs := div_nonneg sum_sq_nonneg (Nat.cast_nonneg _)
  rw [deviation_eq]
  exact Real.sq_sqrt hnonneg

theorem deviation_pos_iff {xs : List ℝ} : 0 < deviation xs ↔ ∃ u ∈ xs, ∃ v ∈ xs, u ≠ v := by
  constructor
  · intro hdev
    by_contra hsame
    push Not at hsame
    cases xs with
    | nil => simp [deviation_eq, squaresAbout] at hdev
    | cons c xs =>
        have hconst : ∀ v ∈ c :: xs, v = c := fun v hv => hsame v hv c List.mem_cons_self
        rw [deviation_of_forall_eq (List.cons_ne_nil _ _) hconst] at hdev
        exact lt_irrefl 0 hdev
  · rintro ⟨u, hu, v, hv, hne⟩
    by_contra hdev
    apply hne
    rw [eq_mean_of_not_deviation_pos hdev hu, eq_mean_of_not_deviation_pos hdev hv]

/-! ## The scores of a column by itself -/

/-- The unit and the zero that the scores by a column are measured in. -/
noncomputable def standardUnit (xs : List ℝ) : UnitChange where
  factor := 1 / divisor (deviation xs)
  shift := -(mean xs / divisor (deviation xs))
  factor_pos := one_div_pos.2 (divisor_pos zero_lt_one _)

theorem standardUnit_apply (xs : List ℝ) (v : ℝ) :
    (standardUnit xs).apply v = standardScore xs v := by
  rw [UnitChange.apply, standardUnit, standardScore]
  ring

theorem map_standardScore (xs : List ℝ) :
    xs.map (standardScore xs) = xs.map (standardUnit xs).apply :=
  List.map_congr_left fun v _ => (standardUnit_apply xs v).symm

theorem mean_map_standardScore {xs : List ℝ} (hne : xs ≠ []) :
    mean (xs.map (standardScore xs)) = 0 := by
  rw [map_standardScore, UnitChange.mean_map _ hne, standardUnit_apply, standardScore_mean]

theorem variance_map_standardScore {xs : List ℝ} (hdev : 0 < deviation xs) :
    variance (xs.map (standardScore xs)) = 1 := by
  obtain ⟨v, hv, -⟩ := deviation_pos_iff.1 hdev
  have hone : deviation (xs.map (standardScore xs)) = 1 := by
    rw [map_standardScore, UnitChange.deviation_map _ (List.ne_nil_of_mem hv)]
    show 1 / divisor (deviation xs) * deviation xs = 1
    rw [divisor, if_pos hdev, one_div_mul_cancel hdev.ne']
  rw [← deviation_sq, hone, one_pow]

theorem standardScore_of_not_deviation_pos {xs : List ℝ} (hdev : ¬0 < deviation xs) {v : ℝ}
    (hv : v ∈ xs) : standardScore xs v = 0 := by
  rw [eq_mean_of_not_deviation_pos hdev hv, standardScore_mean]

/-! ## Standardised tables -/

variable {d : Nat}

namespace Vec

theorem map_get_standardize (rows : List (Vec ℝ d)) (j : Fin d) :
    (rows.map (standardize rows)).map (·.get j) =
      (rows.map (·.get j)).map (standardScore (rows.map (·.get j))) := by
  rw [List.map_map, List.map_map]
  exact List.map_congr_left fun row _ => get_standardize rows row j

/-- To standardise a table is to change the unit of each column. -/
theorem standardize_eq_inUnits (rows : List (Vec ℝ d)) :
    standardize rows = inUnits fun j => standardUnit (rows.map (·.get j)) := by
  funext row
  refine ext_get fun j => ?_
  rw [get_standardize, get_inUnits, standardUnit_apply]

theorem map_standardize_standardize (rows : List (Vec ℝ d)) :
    (rows.map (standardize rows)).map (standardize (rows.map (standardize rows))) =
      rows.map (standardize rows) := by
  have h := map_standardize_inUnits (fun j => standardUnit (rows.map (·.get j))) rows
  rwa [← standardize_eq_inUnits] at h

end Vec

/-- A table with a row is standardised entry by entry, and comes out in standard form: every
column has mean zero, and variance one if two of its entries differed before; if they were all the
same it is zero. The deviation that is computed in one pass is the root of the variance. A table
in standard form comes out as it is. -/
theorem Standardizer.standard_form {rows : List (Vec ℝ d)} (hne : rows ≠ []) :
    let standard := rows.map (Vec.standardize rows)
    (∃ s, fitTransform ⟨d, rows⟩ = .ok (s, ⟨d, standard⟩)) ∧
    (∀ j : Fin d,
      let column := rows.map (·.get j)
      let column' := standard.map (·.get j)
      deviation column = √(variance column) ∧
      mean column' = 0 ∧
      ((∃ u ∈ column, ∃ v ∈ column, u ≠ v) → variance column' = 1) ∧
      ((∀ u ∈ column, ∀ v ∈ column, u = v) → ∀ row ∈ standard, row.get j = 0)) ∧
    ∃ s, fitTransform ⟨d, standard⟩ = .ok (s, ⟨d, standard⟩) := by
  intro standard
  have hne' : standard ≠ [] := List.map_eq_nil_iff.not.2 hne
  refine ⟨?_, fun j => ?_, ?_⟩
  · obtain ⟨s, hs, -⟩ := exists_fitTransform hne
    exact ⟨s, hs⟩
  · intro column column'
    have hcolumn : column ≠ [] := List.map_eq_nil_iff.not.2 hne
    have hscores : column' = column.map (standardScore column) := Vec.map_get_standardize rows j
    refine ⟨deviation_eq column, ?_, fun hdiffer => ?_, fun hsame row hrow => ?_⟩
    · rw [hscores]
      exact mean_map_standardScore hcolumn
    · rw [hscores]
      exact variance_map_standardScore (deviation_pos_iff.2 hdiffer)
    · have hdev : ¬0 < deviation column := by
        rw [deviation_pos_iff]
        rintro ⟨u, hu, v, hv, huv⟩
        exact huv (hsame u hu v hv)
      obtain ⟨before, hbefore, rfl⟩ := List.mem_map.1 hrow
      rw [Vec.get_standardize]
      exact standardScore_of_not_deviation_pos hdev (List.mem_map_of_mem hbefore)
  · obtain ⟨s, hs, -⟩ := exists_fitTransform hne'
    rw [Vec.map_standardize_standardize] at hs
    exact ⟨s, hs⟩

/-- The first column varies and the second does not. -/
theorem Standardizer.standard_form_constant :
    let rows : List (Vec ℝ 2) := [⟨[1, 7], rfl⟩, ⟨[3, 7], rfl⟩]
    rows ≠ [] ∧
    ∃ (s s' : Standardizer ℝ) (standard : List (Vec ℝ 2)),
      fitTransform ⟨2, rows⟩ = .ok (s, ⟨2, standard⟩) ∧
      fitTransform ⟨2, standard⟩ = .ok (s', ⟨2, standard⟩) ∧
      mean (standard.map (·.get 0)) = 0 ∧ variance (standard.map (·.get 0)) = 1 ∧
      ∀ row ∈ standard, row.get 1 = 0 := by
  intro rows
  have hne : rows ≠ [] := List.cons_ne_nil _ _
  obtain ⟨⟨s, hs⟩, hcolumns, s', hs'⟩ := standard_form hne
  obtain ⟨-, hmean, hvaries, -⟩ := hcolumns 0
  obtain ⟨-, -, -, hconst⟩ := hcolumns 1
  refine ⟨hne, s, s', _, hs, hs', hmean, hvaries ?_, hconst ?_⟩
  · refine ⟨1, List.mem_cons_self, 3, List.mem_cons_of_mem _ List.mem_cons_self, ?_⟩
    norm_num
  · simp [rows, Vec.get]

end RidgeLogistic
