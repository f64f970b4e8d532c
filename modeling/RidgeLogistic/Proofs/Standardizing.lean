import RidgeLogistic.Standardizer
import RidgeLogistic.Proofs.Exact

/-!
# What a standardizer remembers

A standardizer remembers one table, and of it the statistics alone: that of the last fit on a
table with a row. Every call either puts the statistics of its table in place of what was
there, or leaves all as it was (`Standardizer.state_perform`); a call that is refused is of the
second kind, and so is one that only transforms. From there the state after any calls follows by
induction (`Standardizer.foldl_perform`).

A call that fits and transforms has put its statistics in place by the time it transforms. That
this cannot be refused any more is what makes its refusals harmless: the table has the width
that the statistics were taken with.
-/

namespace RidgeLogistic

variable {α : Type} [Scalar α]

/-! ## The statistics of a table -/

/-- The mean and the divisor of each column. -/
def Table.statistics (x : Table α) : ColumnStatistics α where
  width := x.width
  mean := Vec.ofFn fun j => RidgeLogistic.mean (x.column j)
  divisor := Vec.ofFn fun j => RidgeLogistic.divisor (deviation (x.column j))

/-- A row with each entry centred and scaled. -/
def ColumnStatistics.standardize (s : ColumnStatistics α) (row : Vec α s.width) :
    Vec α s.width :=
  Vec.zipWith (· / ·) (row - s.mean) s.divisor

theorem ColumnStatistics.get_standardize (s : ColumnStatistics α) (row : Vec α s.width)
    (j : Fin s.width) :
    (s.standardize row).get j = (row.get j - s.mean.get j) / s.divisor.get j := by
  rw [standardize, Vec.get_zipWith, Vec.sub_def, Vec.get_zipWith]

/-- Whatever a deviation is, nothing is divided by zero. -/
theorem divisor_pos (h : (0 : α) < 1) (v : α) : 0 < divisor v := by
  rw [divisor]
  split
  · next hv => exact hv
  · exact h

theorem Table.statistics_pos (h : (0 : α) < 1) (x : Table α) :
    ∀ v ∈ x.statistics.divisor.toList, 0 < v := by
  intro v hv
  obtain ⟨j, rfl⟩ := List.mem_ofFn.1 hv
  exact divisor_pos h _

namespace Standardizer

def fittedOn (x : Table α) : Standardizer α where
  statistics := some x.statistics

theorem fit_eq (x : Table α) :
    fit x = if x.height = 0 then .error (.dimension .noRows) else .ok (fittedOn x) := by
  rw [fit, ColumnStatistics.ofTable]
  split <;> rfl

theorem transform_eq {s : Standardizer α} {st : ColumnStatistics α}
    (h : s.statistics = some st) (rows : List (Vec α st.width)) :
    s.transform ⟨st.width, rows⟩ = .ok ⟨st.width, rows.map st.standardize⟩ := by
  rw [transform, h]
  exact st.apply_rows rows

theorem transform_fittedOn (x : Table α) (rows : List (Vec α x.width)) :
    (fittedOn x).transform ⟨x.width, rows⟩ =
      .ok ⟨x.width, rows.map x.statistics.standardize⟩ :=
  transform_eq (s := fittedOn x) rfl rows

theorem fitTransform_eq (x : Table α) :
    fitTransform x =
      if x.height = 0 then .error (.dimension .noRows)
      else .ok (fittedOn x, ⟨x.width, x.rows.map x.statistics.standardize⟩) := by
  rw [fitTransform, fit_eq]
  split
  · rfl
  · show ((fittedOn x).transform x >>= fun table => _) = _
    rw [transform_fittedOn x x.rows]
    rfl

/-! ## Calls -/

/-- What is asked of a standardizer. -/
inductive Call (α : Type) where
  | fit (x : Table α)
  | transform (x : Table α)
  | fitTransform (x : Table α)

/-- The table that a call fits on, which has to have a row. -/
def Call.fitted? : Call α → Option (Table α)
  | .fit x => if x.height = 0 then none else some x
  | .transform _ => none
  | .fitTransform x => if x.height = 0 then none else some x

/-- The table of the last call that fitted. -/
def Call.lastFitted? (calls : List (Call α)) : Option (Table α) :=
  calls.reverse.findSome? fitted?

/-- What a call leaves, and the table that it answers, if it is one that answers with a
table. -/
def perform (s : Standardizer α) :
    Call α → Standardizer α × Except (Error α) (Option (Table α))
  | .fit x =>
    match fit x with
    | .ok fitted => (fitted, .ok none)
    | .error fault => (s, .error fault)
  | .transform x => (s, some <$> s.transform x)
  | .fitTransform x =>
    match fit x with
    | .ok fitted => (fitted, some <$> fitted.transform x)
    | .error fault => (s, .error fault)

def after (calls : List (Call α)) : Standardizer α :=
  calls.foldl (fun s call => (s.perform call).1) unfitted

theorem perform_fit (s : Standardizer α) (x : Table α) :
    s.perform (.fit x) =
      if x.height = 0 then (s, .error (.dimension .noRows)) else (fittedOn x, .ok none) := by
  by_cases h : x.height = 0
  · rw [perform, fit_eq, if_pos h, if_pos h]
  · rw [perform, fit_eq, if_neg h, if_neg h]

theorem perform_fitTransform (s : Standardizer α) (x : Table α) :
    s.perform (.fitTransform x) =
      if x.height = 0 then (s, .error (.dimension .noRows))
      else (fittedOn x, .ok (some ⟨x.width, x.rows.map x.statistics.standardize⟩)) := by
  by_cases h : x.height = 0
  · rw [perform, fit_eq, if_pos h, if_pos h]
  · rw [perform, fit_eq, if_neg h, if_neg h]
    show (fittedOn x, some <$> (fittedOn x).transform x) = _
    rw [transform_fittedOn x x.rows]
    rfl

/-- The call answers with the table that is made in one go. -/
theorem answer_fitTransform (s : Standardizer α) (x : Table α) :
    (s.perform (.fitTransform x)).2 = (fun made => some made.2) <$> fitTransform x := by
  rw [perform_fitTransform, fitTransform_eq]
  split <;> rfl

/-- All that a call can do to the state. -/
theorem state_perform (s : Standardizer α) (call : Call α) :
    (s.perform call).1 = (call.fitted?.map fittedOn).getD s := by
  cases call with
  | fit x =>
      rw [perform_fit, Call.fitted?]
      split <;> rfl
  | transform x => rfl
  | fitTransform x =>
      rw [perform_fitTransform, Call.fitted?]
      split <;> rfl

omit [Scalar α] in
theorem Call.lastFitted?_cons (call : Call α) (calls : List (Call α)) :
    lastFitted? (call :: calls) = (lastFitted? calls).or call.fitted? := by
  rw [lastFitted?, List.reverse_cons, List.findSome?_append, List.findSome?_singleton]
  rfl

theorem foldl_perform (s : Standardizer α) (calls : List (Call α)) :
    calls.foldl (fun s call => (s.perform call).1) s =
      ((Call.lastFitted? calls).map fittedOn).getD s := by
  induction calls generalizing s with
  | nil => rfl
  | cons call calls ih =>
      rw [List.foldl_cons, ih, state_perform, Call.lastFitted?_cons]
      cases Call.lastFitted? calls <;> rfl

theorem after_eq (calls : List (Call α)) :
    after calls = ((Call.lastFitted? calls).map fittedOn).getD unfitted :=
  foldl_perform unfitted calls

theorem statistics_after (calls : List (Call α)) :
    (after calls).statistics = (Call.lastFitted? calls).map Table.statistics := by
  rw [after_eq]
  cases Call.lastFitted? calls <;> rfl

omit [Scalar α] in
theorem Call.height_of_fitted? {call : Call α} {x : Table α} (h : call.fitted? = some x) :
    x.height ≠ 0 := by
  cases call with
  | fit y =>
      rw [fitted?, Option.ite_none_left_eq_some] at h
      exact Option.some.inj h.2 ▸ h.1
  | transform y => injection h
  | fitTransform y =>
      rw [fitted?, Option.ite_none_left_eq_some] at h
      exact Option.some.inj h.2 ▸ h.1

omit [Scalar α] in
theorem Call.height_of_lastFitted? {calls : List (Call α)} {x : Table α}
    (h : lastFitted? calls = some x) : x.height ≠ 0 := by
  obtain ⟨call, -, hcall⟩ := List.exists_of_findSome?_eq_some h
  exact height_of_fitted? hcall

/-- What is remembered is one table or none. -/
theorem after_cases (calls : List (Call α)) :
    (Call.lastFitted? calls = none ∧ after calls = unfitted) ∨
      ∃ x, Call.lastFitted? calls = some x ∧ x.height ≠ 0 ∧ after calls = fittedOn x := by
  rw [after_eq]
  cases hlast : Call.lastFitted? calls with
  | none => exact Or.inl ⟨rfl, rfl⟩
  | some x => exact Or.inr ⟨x, rfl, Call.height_of_lastFitted? hlast, rfl⟩

/-- Which calls to fit are refused. -/
theorem exists_error_fit_iff (s : Standardizer α) (x : Table α) :
    ((∃ fault, (s.perform (.fit x)).2 = .error fault) ↔ x.height = 0) ∧
      ((∃ fault, (s.perform (.fitTransform x)).2 = .error fault) ↔ x.height = 0) := by
  rw [perform_fit, perform_fitTransform]
  by_cases h : x.height = 0
  · rw [if_pos h, if_pos h]
    exact ⟨iff_of_true ⟨_, rfl⟩ h, iff_of_true ⟨_, rfl⟩ h⟩
  · rw [if_neg h, if_neg h]
    exact ⟨iff_of_false (fun ⟨_, hfault⟩ => by injection hfault) h,
      iff_of_false (fun ⟨_, hfault⟩ => by injection hfault) h⟩

/-- A call that is refused leaves all as it was. -/
theorem state_perform_of_error {s : Standardizer α} {call : Call α} {fault : Error α}
    (h : (s.perform call).2 = .error fault) : (s.perform call).1 = s := by
  cases call with
  | fit x => rw [perform_fit, if_pos ((s.exists_error_fit_iff x).1.1 ⟨fault, h⟩)]
  | transform x => rfl
  | fitTransform x =>
      rw [perform_fitTransform, if_pos ((s.exists_error_fit_iff x).2.1 ⟨fault, h⟩)]

/-! ## The state after any calls -/

def mean? (s : Standardizer α) : Option (List α) :=
  s.statistics.map (·.mean.toList)

def deviations? (s : Standardizer α) : Option (List α) :=
  s.statistics.map (·.divisor.toList)

theorem transform_eq_notFitted_iff {s : Standardizer α} {x : Table α} :
    s.transform x = .error .notFitted ↔ s.statistics = none := by
  rw [transform]
  cases s.statistics with
  | none => exact iff_of_true rfl rfl
  | some st =>
      show st.apply x = _ ↔ _
      refine iff_of_false (fun h => ?_) (Option.some_ne_none st)
      rw [ColumnStatistics.apply] at h
      split at h
      · injection h
      · injection h with h
        injection h

theorem transform_eq_dimension_iff {s : Standardizer α} {x : Table α}
    {fault : DimensionFault} :
    s.transform x = .error (.dimension fault) ↔
      ∃ st, s.statistics = some st ∧ x.width ≠ st.width ∧
        fault = .statistics st.width x.width := by
  rw [transform]
  cases s.statistics with
  | none =>
      refine iff_of_false (fun h => ?_) fun ⟨st, h, _⟩ => ?_
      · injection h with h
        injection h
      · injection h
  | some st =>
      show st.apply x = _ ↔ _
      rw [ColumnStatistics.apply]
      split
      · next h =>
          refine iff_of_false (fun h => by injection h) ?_
          rintro ⟨_, ⟨⟩, hne, -⟩
          exact hne h
      · next h =>
          constructor
          · intro herror
            injection herror with herror
            injection herror with herror
            exact ⟨st, rfl, h, herror.symm⟩
          · rintro ⟨_, ⟨⟩, -, rfl⟩
            rfl

/-- After any calls a standardizer has both means and deviations or neither. It has those that
a new one gets from the table of the last call that fitted, as many as that has columns, and
all deviations are positive, whatever the table holds. A call that is refused leaves all as it
was, and so does one that only transforms. To transform is refused where no call has fitted,
and where the table is not as wide as that of the last; any other table is centred and scaled
entry by entry. To fit is refused where the table has no row. -/
theorem state_after_calls (h : (0 : α) < 1) (calls : List (Call α)) :
    let s := after calls
    ((Call.lastFitted? calls = none ∧ s.mean? = none ∧ s.deviations? = none) ∨
      ∃ x means deviations, Call.lastFitted? calls = some x ∧
        unfitted.perform (.fit x) = (s, .ok none) ∧
        s.mean? = some means ∧ s.deviations? = some deviations ∧
        means.length = x.width ∧ deviations.length = x.width ∧ ∀ v ∈ deviations, 0 < v) ∧
    (∀ call, ((∃ fault, (s.perform call).2 = .error fault) ∨ ∃ x, call = .transform x) →
      (s.perform call).1 = s) ∧
    (∀ x, s.transform x = .error .notFitted ↔ Call.lastFitted? calls = none) ∧
    (∀ x fault, s.transform x = .error (.dimension fault) ↔
      ∃ fitted, Call.lastFitted? calls = some fitted ∧ x.width ≠ fitted.width ∧
        fault = .statistics fitted.width x.width) ∧
    (∀ st, s.statistics = some st → ∀ rows : List (Vec α st.width),
      ∃ rows', s.transform ⟨st.width, rows⟩ = .ok ⟨st.width, rows'⟩ ∧
        rows'.length = rows.length ∧
        ∀ (i : Nat) row row', rows[i]? = some row → rows'[i]? = some row' →
          ∀ j, row'.get j = (row.get j - st.mean.get j) / st.divisor.get j) ∧
    ∀ x : Table α,
      ((∃ fault, (s.perform (.fit x)).2 = .error fault) ↔ x.height = 0) ∧
      ((∃ fault, (s.perform (.fitTransform x)).2 = .error fault) ↔ x.height = 0) ∧
      (s.perform (.fitTransform x)).2 = (fun made => some made.2) <$> fitTransform x := by
  intro s
  refine ⟨?_, ?_, fun x => ?_, fun x fault => ?_, ?_, fun x => ?_⟩
  · rcases after_cases calls with ⟨hlast, hs⟩ | ⟨x, hlast, hheight, hs⟩
    · refine Or.inl ⟨hlast, ?_, ?_⟩
      · exact congrArg mean? hs
      · exact congrArg deviations? hs
    · refine Or.inr ⟨x, x.statistics.mean.toList, x.statistics.divisor.toList, hlast, ?_, ?_, ?_,
        x.statistics.mean.length_toList, x.statistics.divisor.length_toList,
        x.statistics_pos h⟩
      · rw [perform_fit, if_neg hheight]
        exact congrArg (·, _) hs.symm
      · exact congrArg mean? hs
      · exact congrArg deviations? hs
  · rintro call (⟨fault, hfault⟩ | ⟨x, rfl⟩)
    · exact state_perform_of_error hfault
    · rfl
  · rw [transform_eq_notFitted_iff, statistics_after, Option.map_eq_none_iff]
  · rw [transform_eq_dimension_iff, statistics_after]
    constructor
    · rintro ⟨st, hst, hne, hfault⟩
      obtain ⟨fitted, hfitted, rfl⟩ := Option.map_eq_some_iff.1 hst
      exact ⟨fitted, hfitted, hne, hfault⟩
    · rintro ⟨fitted, hfitted, hne, hfault⟩
      exact ⟨fitted.statistics, Option.map_eq_some_iff.2 ⟨fitted, hfitted, rfl⟩, hne, hfault⟩
  · intro st hst rows
    refine ⟨rows.map st.standardize, transform_eq hst rows, List.length_map _, ?_⟩
    intro i row row' hrow hrow' j
    rw [List.getElem?_map, hrow] at hrow'
    rw [← Option.some.inj hrow', st.get_standardize]
  · obtain ⟨hfit, hfitTransform⟩ := s.exists_error_fit_iff x
    exact ⟨hfit, hfitTransform, s.answer_fitTransform x⟩

/-- Fitted once, and then asked to fit on no rows and to transform what is too wide. -/
theorem state_after_calls_refused :
    let x : Table ℝ := ⟨1, [.replicate 1 0, .replicate 1 2]⟩
    let s := after [.fit x, .fitTransform ⟨3, []⟩, .transform ⟨2, []⟩]
    (0 : ℝ) < 1 ∧ unfitted.perform (.fit x) = (s, .ok none) ∧
      s.transform ⟨2, []⟩ = .error (.dimension (.statistics 1 2)) ∧
      ∃ means deviations, s.mean? = some means ∧ s.deviations? = some deviations ∧
        means.length = 1 ∧ deviations.length = 1 ∧ ∀ v ∈ deviations, 0 < v := by
  intro x s
  obtain ⟨hstate, -, -, hwidth, -⟩ := state_after_calls (zero_lt_one (α := ℝ))
    [.fit x, .fitTransform ⟨3, []⟩, .transform ⟨2, []⟩]
  have hlast : Call.lastFitted? [.fit x, .fitTransform ⟨3, []⟩, .transform ⟨2, []⟩] = some x :=
    rfl
  refine ⟨zero_lt_one, ?_⟩
  rcases hstate with ⟨hnone, -⟩ | ⟨fitted, means, deviations, hfitted, hfit, hrest⟩
  · rw [hlast] at hnone
    injection hnone
  · obtain rfl := Option.some.inj (hlast.symm.trans hfitted)
    exact ⟨hfit, (hwidth _ _).2 ⟨x, hlast, by decide, rfl⟩, means, deviations, hrest⟩

end Standardizer

end RidgeLogistic
