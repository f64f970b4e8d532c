import RidgeLogistic.Proofs.IdleFeatures
import RidgeLogistic.Proofs.Moments
import RidgeLogistic.Proofs.Standardizing

/-!
# Changes of unit

A model that is fitted on standardised features does not know the units that the features
were measured in. For the table that the standardizer was fitted on this is plain: every
column comes out the same (`Vec.map_standardize_inUnits`), and so does all that is fitted on
it. Other tables come out the same only in those columns that vary in that table. A constant
column has no deviation to divide by, it is divided by one, and what is made of another value
there keeps its unit. Such a column is zero in the table that the model is fitted on, though,
and so is then its coefficient; so the scores agree, and with them all predictions
(`Estimator.predictions_in_units`).
-/

namespace RidgeLogistic

/-! ## Standard scores -/

/-- How far a value lies from the mean of a column, in deviations of the column. -/
noncomputable def standardScore (xs : List ℝ) (v : ℝ) : ℝ :=
  (v - mean xs) / divisor (deviation xs)

theorem standardScore_mean (xs : List ℝ) : standardScore xs (mean xs) = 0 := by
  rw [standardScore, sub_self, zero_div]

/-- The scores by a constant column are distances: there is no deviation to divide by. -/
theorem standardScore_of_forall_eq {xs : List ℝ} (hne : xs ≠ []) {c : ℝ}
    (h : ∀ v ∈ xs, v = c) (v : ℝ) : standardScore xs v = v - c := by
  rw [standardScore, mean_of_forall_eq hne h, deviation_of_forall_eq hne h, divisor,
    if_neg (lt_irrefl 0), div_one]

namespace UnitChange

variable (u : UnitChange) {xs : List ℝ}

theorem standardScore_map_of_pos (hne : xs ≠ []) (hdev : 0 < deviation xs) (v : ℝ) :
    standardScore (xs.map u.apply) (u.apply v) = standardScore xs v := by
  have hdev' : 0 < deviation (xs.map u.apply) := by
    rw [u.deviation_map hne]
    exact mul_pos u.factor_pos hdev
  rw [standardScore, standardScore, divisor, divisor, if_pos hdev, if_pos hdev',
    u.mean_map hne, u.apply_sub_apply, u.deviation_map hne,
    mul_div_mul_left _ _ u.factor_pos.ne']

theorem standardScore_map_of_mem {v : ℝ} (hv : v ∈ xs) :
    standardScore (xs.map u.apply) (u.apply v) = standardScore xs v := by
  have hne := List.ne_nil_of_mem hv
  by_cases hdev : 0 < deviation xs
  · exact u.standardScore_map_of_pos hne hdev v
  · rw [eq_mean_of_not_deviation_pos hdev hv, ← u.mean_map hne, standardScore_mean,
      standardScore_mean]

end UnitChange

/-! ## Standardised tables -/

variable {d : Nat}

namespace Vec

/-- A row standardised by the columns of a table. -/
noncomputable def standardize (train : List (Vec ℝ d)) (row : Vec ℝ d) : Vec ℝ d :=
  ofFn fun j => standardScore (train.map (·.get j)) (row.get j)

/-- A row with each feature in another unit. -/
def inUnits (units : Fin d → UnitChange) (row : Vec ℝ d) : Vec ℝ d :=
  ofFn fun j => (units j).apply (row.get j)

theorem get_standardize (train : List (Vec ℝ d)) (row : Vec ℝ d) (j : Fin d) :
    (standardize train row).get j = standardScore (train.map (·.get j)) (row.get j) :=
  get_ofFn _ j

theorem get_inUnits (units : Fin d → UnitChange) (row : Vec ℝ d) (j : Fin d) :
    (inUnits units row).get j = (units j).apply (row.get j) :=
  get_ofFn _ j

variable (units : Fin d → UnitChange) (train : List (Vec ℝ d))

theorem get_standardize_inUnits (row : Vec ℝ d) (j : Fin d) :
    (standardize (train.map (inUnits units)) (inUnits units row)).get j =
      standardScore ((train.map (·.get j)).map (units j).apply)
        ((units j).apply (row.get j)) := by
  rw [get_standardize, List.map_map, List.map_map, get_inUnits]
  exact congrArg (standardScore · _) (List.map_congr_left fun row _ => get_inUnits units row j)

/-- The table that standardises itself comes out the same in any units. -/
theorem map_standardize_inUnits :
    (train.map (inUnits units)).map (standardize (train.map (inUnits units))) =
      train.map (standardize train) := by
  rw [List.map_map]
  refine List.map_congr_left fun row hrow => ext_get fun j => ?_
  rw [Function.comp_apply, get_standardize_inUnits, get_standardize]
  exact (units j).standardScore_map_of_mem (List.mem_map_of_mem hrow)

/-- A row that stands beside the table comes out the same in every column that varies in the
table; and a column that does not vary is zero in the standardised table. -/
theorem get_standardize_cases (hne : train ≠ []) (row : Vec ℝ d) (j : Fin d) :
    (standardize (train.map (inUnits units)) (inUnits units row)).get j =
      (standardize train row).get j ∨
    ∀ r ∈ train.map (standardize train), r.get j = 0 := by
  by_cases hdev : 0 < deviation (train.map (·.get j))
  · refine Or.inl ?_
    rw [get_standardize_inUnits, get_standardize]
    exact (units j).standardScore_map_of_pos (List.map_eq_nil_iff.not.2 hne) hdev _
  · refine Or.inr fun r hr => ?_
    obtain ⟨row, hrow, rfl⟩ := List.mem_map.1 hr
    rw [get_standardize, eq_mean_of_not_deviation_pos hdev (List.mem_map_of_mem hrow),
      standardScore_mean]

theorem get_standardize_of_constant {train : List (Vec ℝ d)} (hne : train ≠ []) {j : Fin d}
    {c : ℝ} (h : ∀ row ∈ train, row.get j = c) (row : Vec ℝ d) :
    (standardize train row).get j = row.get j - c := by
  rw [get_standardize, standardScore_of_forall_eq (List.map_eq_nil_iff.not.2 hne)]
  intro v hv
  obtain ⟨other, hother, rfl⟩ := List.mem_map.1 hv
  exact h other hother

/-- What is made of a column that is constant in the table keeps its unit. -/
theorem get_standardize_inUnits_of_constant {train : List (Vec ℝ d)} (hne : train ≠ [])
    {j : Fin d} {c : ℝ} (h : ∀ row ∈ train, row.get j = c) (row : Vec ℝ d) :
    (standardize (train.map (inUnits units)) (inUnits units row)).get j =
      (units j).factor * (standardize train row).get j := by
  have hne' : train.map (inUnits units) ≠ [] := List.map_eq_nil_iff.not.2 hne
  have h' : ∀ row ∈ train.map (inUnits units), row.get j = (units j).apply c := by
    intro row hrow
    obtain ⟨other, hother, rfl⟩ := List.mem_map.1 hrow
    rw [get_inUnits, h other hother]
  rw [get_standardize_of_constant hne' h', get_standardize_of_constant hne h, get_inUnits,
    UnitChange.apply_sub_apply]

theorem dot_congr {u v w : Vec ℝ d} (h : ∀ j, u.get j = v.get j ∨ w.get j = 0) :
    u.dot w = v.dot w := by
  rw [dot_eq_sum, dot_eq_sum]
  refine Finset.sum_congr rfl fun j _ => ?_
  rcases h j with hget | hzero
  · rw [hget]
  · rw [hzero, mul_zero, mul_zero]

/-- Coefficients that are zero where the standardised table is do not see the unit of any
row. -/
theorem standardize_inUnits_dot {train : List (Vec ℝ d)} (hne : train ≠ []) {w : Vec ℝ d}
    (hidle : ∀ j, (∀ r ∈ train.map (standardize train), r.get j = 0) → w.get j = 0)
    (row : Vec ℝ d) :
    (standardize (train.map (inUnits units)) (inUnits units row)).dot w =
      (standardize train row).dot w :=
  dot_congr fun j => (get_standardize_cases units train hne row j).imp_right (hidle j)

end Vec

/-- A standardizer fitted on a table with a row standardises every table of that width by its
columns, the table itself at once. -/
theorem Standardizer.exists_fitTransform {train : List (Vec ℝ d)} (hne : train ≠ []) :
    ∃ s : Standardizer ℝ,
      fitTransform ⟨d, train⟩ = .ok (s, ⟨d, train.map (Vec.standardize train)⟩) ∧
      ∀ rows : List (Vec ℝ d),
        s.transform ⟨d, rows⟩ = .ok ⟨d, rows.map (Vec.standardize train)⟩ := by
  let x : Table ℝ := ⟨d, train⟩
  have hheight : x.height ≠ 0 := fun hzero => hne (List.eq_nil_of_length_eq_zero hzero)
  have hrow : ∀ row : Vec ℝ d, x.statistics.standardize row = Vec.standardize train row := by
    refine fun row => Vec.ext_get fun j : Fin d => ?_
    have hscore := (x.statistics.get_standardize row j).trans
      (congrArg₂ (fun centre s => (row.get j - centre) / s) (Vec.get_ofFn _ j) (Vec.get_ofFn _ j))
    exact hscore.trans (Vec.get_standardize train row j).symm
  have hrows : ∀ rows : List (Vec ℝ d),
      rows.map x.statistics.standardize = rows.map (Vec.standardize train) :=
    fun rows => List.map_congr_left fun row _ => hrow row
  refine ⟨fittedOn x, ?_, fun rows => ?_⟩
  · rw [← hrows train]
    exact (fitTransform_eq x).trans (if_neg hheight)
  · rw [← hrows rows]
    exact transform_fittedOn x rows

/-! ## Predictions -/

section

variable [Eigensolver ℝ]

/-- A model that is fitted on a standardised table is the same model when all was measured in
other units, and it predicts the same for every other table that is standardised by the
statistics of the first. The columns that are constant in the first table are what tells the
two apart, if the units do, and their coefficients are zero. -/
theorem Estimator.predictions_in_units (units : Fin d → UnitChange) {train : List (Vec ℝ d)}
    (hne : train ≠ []) (test : List (Vec ℝ d)) (y : List ℝ) (model : Estimator ℝ) :
    ∃ (s s' : Standardizer ℝ) (standard standard' : Table ℝ) (tested tested' : List (Vec ℝ d)),
      Standardizer.fitTransform ⟨d, train⟩ = .ok (s, standard) ∧
      Standardizer.fitTransform ⟨d, train.map (Vec.inUnits units)⟩ = .ok (s', standard') ∧
      s.transform ⟨d, test⟩ = .ok ⟨d, tested⟩ ∧
      s'.transform ⟨d, test.map (Vec.inUnits units)⟩ = .ok ⟨d, tested'⟩ ∧
      standard' = standard ∧
      model.fit standard' y = model.fit standard y ∧
      ∀ fitted, model.fit standard y = .ok fitted →
        (∃ probabilities labels,
          probabilities.length = test.length ∧ labels.length = test.length ∧
          fitted.value.probabilities ⟨d, tested⟩ = .ok probabilities ∧
          fitted.value.probabilities ⟨d, tested'⟩ = .ok probabilities ∧
          fitted.value.predict ⟨d, tested⟩ = .ok labels ∧
          fitted.value.predict ⟨d, tested'⟩ = .ok labels) ∧
        ∃ w : Vec ℝ d, fitted.value.coefficients = some w.toList ∧
          ∀ j c, (∀ row ∈ train, row.get j = c) →
            w.get j = 0 ∧
            tested'.map (·.get j) = tested.map fun row => (units j).factor * row.get j := by
  obtain ⟨s, hstandard, htested⟩ := Standardizer.exists_fitTransform hne
  obtain ⟨s', hstandard', htested'⟩ := Standardizer.exists_fitTransform
    (List.map_eq_nil_iff.not.2 hne : train.map (Vec.inUnits units) ≠ [])
  rw [Vec.map_standardize_inUnits] at hstandard'
  refine ⟨s, s', _, _, _, _, hstandard, hstandard', htested test, htested' _, rfl, rfl, ?_⟩
  intro fitted hfit
  obtain ⟨w, hw, hidle⟩ := exists_idle_of_fit hfit
  have hscores : ((test.map (Vec.inUnits units)).map
      (Vec.standardize (train.map (Vec.inUnits units)))).map (·.dot w) =
      (test.map (Vec.standardize train)).map (·.dot w) := by
    rw [List.map_map, List.map_map, List.map_map]
    exact List.map_congr_left fun row _ => Vec.standardize_inUnits_dot units hne hidle row
  obtain ⟨hprobabilities, hpredict⟩ := predictions_congr hw hscores
  refine ⟨⟨_, _, ?_, ?_, probabilities_eq hw, hprobabilities.trans (probabilities_eq hw),
    predict_eq hw, hpredict.trans (predict_eq hw)⟩, w, hw, ?_⟩
  · rw [List.length_map, List.length_map]
  · rw [List.length_map, List.length_map]
  · intro j c hconst
    refine ⟨hidle j fun row hrow => ?_, ?_⟩
    · obtain ⟨other, hother, rfl⟩ := List.mem_map.1 hrow
      rw [Vec.get_standardize_of_constant hne hconst, hconst other hother, sub_self]
    · rw [List.map_map, List.map_map, List.map_map]
      exact List.map_congr_left fun row _ =>
        Vec.get_standardize_inUnits_of_constant units hne hconst row

end

/-- The second feature is constant in the first table and another one in the second. -/
theorem Estimator.predictions_in_units_constant :
    let train : List (Vec ℝ 2) := [⟨[0, 7], rfl⟩, ⟨[2, 7], rfl⟩]
    let test : List (Vec ℝ 2) := [⟨[1, 9], rfl⟩]
    let units : Fin 2 → UnitChange := fun _ => ⟨3, -1, three_pos⟩
    let model : Estimator ℝ := ofSettings
      { Settings.standard with step := some 1, iterations := 2, intercept := true }
    train ≠ [] ∧
    ∃ (s s' : Standardizer ℝ) (standard : Table ℝ) (tested tested' : List (Vec ℝ 2))
      (fitted : Logged ℝ (Estimator ℝ)) (labels : List Label),
      Standardizer.fitTransform ⟨2, train⟩ = .ok (s, standard) ∧
      Standardizer.fitTransform ⟨2, train.map (Vec.inUnits units)⟩ = .ok (s', standard) ∧
      s.transform ⟨2, test⟩ = .ok ⟨2, tested⟩ ∧
      s'.transform ⟨2, test.map (Vec.inUnits units)⟩ = .ok ⟨2, tested'⟩ ∧
      tested' ≠ tested ∧
      model.fit standard [1, -1] = .ok fitted ∧
      fitted.value.predict ⟨2, tested⟩ = .ok labels ∧
      fitted.value.predict ⟨2, tested'⟩ = .ok labels := by
  intro train test units model
  have hne : train ≠ [] := List.cons_ne_nil _ _
  obtain ⟨s, s', standard, standard', tested, tested', hstandard, hstandard', htested, htested',
    rfl, -, hpredict⟩ := predictions_in_units units hne test [1, -1] model
  obtain ⟨s₀, hstandard₀, htested₀⟩ := Standardizer.exists_fitTransform hne
  rw [hstandard] at hstandard₀
  obtain ⟨rfl, rfl⟩ := Prod.mk.inj (Except.ok.inj hstandard₀)
  have hproblem : ∃ p, Problem.ofData ⟨2, train.map (Vec.standardize train)⟩ [1, -1] = .ok p :=
    Problem.exists_ofData_iff.2 ⟨rfl, by decide,
      _, Label.readFrom_map_value 0 [.positive, .negative]⟩
  have hsound : (model.settings.params 1).Sound :=
    Params.sound_standard (show (0 : ℝ) ≤ 0.1 by norm_num) zero_lt_one 2
  obtain ⟨fitted, hfit⟩ := exists_fit_iff.2
    ⟨hproblem, 1, rfl, Params.check_eq_ok_iff.2 hsound⟩
  obtain ⟨⟨_, labels, -, -, -, -, hlabels, hlabels'⟩, w, -, hconst⟩ := hpredict fitted hfit
  refine ⟨hne, s, s', _, tested, tested', fitted, labels, hstandard, hstandard', htested,
    htested', fun hsame => ?_, hfit, hlabels, hlabels'⟩
  have hrows : tested = test.map (Vec.standardize train) := by
    injection Except.ok.inj (htested.symm.trans (htested₀ test))
  -- the second feature of the row of `test` is two above the constant, so six in other units
  have hseven : ∀ row ∈ train, row.get 1 = 7 := by
    simp [train, Vec.get]
  have htwo : (Vec.standardize train ⟨[1, 9], rfl⟩).get 1 = 2 := by
    rw [Vec.get_standardize_of_constant hne hseven]
    norm_num [Vec.get]
  have hthrice := (hconst 1 7 hseven).2
  rw [hsame, hrows] at hthrice
  simp only [test, List.map_cons, List.map_nil, htwo, units] at hthrice
  norm_num at hthrice

end RidgeLogistic
