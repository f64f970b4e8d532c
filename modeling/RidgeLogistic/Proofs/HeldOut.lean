import RidgeLogistic.Experiment
import RidgeLogistic.Proofs.Fitted
import RidgeLogistic.Proofs.Splitting
import RidgeLogistic.Proofs.Standardizing

/-!
# Rows held out

A model is scored on rows that it was not fitted on, and that says something only if nothing of
these rows has found its way into the model. Two datasets that agree where the rows to fit on
are, and anywhere else perhaps not, are taken through the same steps here, and what is learnt is
the same (`Split.heldOut_unseen`), whatever the arithmetic.

Three things make it so. Which rows go where depends on their number, the share and the seed
(`Dataset.places`), so both datasets are split alike. What is learnt is made of the part to fit
on alone, the statistics included that the other part is standardised by. And to standardise and
to predict is done row by row (`RowByRow`), so a row to test on is told the same, whatever
stands beside it.
-/

namespace RidgeLogistic

/-! ## Answers row by row -/

section

variable {ε β γ κ μ : Type}

/-- What makes a whole of the answers to the rows, each by itself, unless it is refused, which
the rows have no part in. -/
def RowByRow (whole : List γ → κ) (f : List β → Except ε κ) : Prop :=
  (∃ fault, ∀ rows, f rows = .error fault) ∨
    ∃ g : β → γ, ∀ rows, f rows = .ok (whole (rows.map g))

theorem RowByRow.bind {δ : Type} {whole : List γ → κ} {whole' : List δ → μ}
    {f : List β → Except ε κ} {h : κ → Except ε μ} (hf : RowByRow whole f)
    (hh : RowByRow whole' fun rows => h (whole rows)) :
    RowByRow whole' fun rows => f rows >>= h := by
  rcases hf with ⟨fault, hf⟩ | ⟨g, hf⟩
  · refine Or.inl ⟨fault, fun rows => ?_⟩
    show (f rows >>= h) = _
    rw [hf]
    rfl
  · have hbind : ∀ rows, (f rows >>= h) = h (whole (rows.map g)) := by
      intro rows
      rw [hf]
      rfl
    rcases hh with ⟨fault, hh⟩ | ⟨g', hh⟩
    · exact Or.inl ⟨fault, fun rows => (hbind rows).trans (hh _)⟩
    · refine Or.inr ⟨g' ∘ g, fun rows => (hbind rows).trans ?_⟩
      rw [← List.map_map]
      exact hh _

/-- Two outcomes for the rows at the same places of two lists: both are refused for the same
reason, or each has an answer for every place, and the same one where the rows are the same. -/
def AgreeWhere (places : List Nat) (rows rows' : List β) (a a' : Except ε (List γ)) : Prop :=
  (∃ fault, a = .error fault ∧ a' = .error fault) ∨
    ∃ answers answers', a = .ok answers ∧ a' = .ok answers' ∧
      answers.length = places.length ∧ answers'.length = places.length ∧
      ∀ (k place : Nat), places[k]? = some place → rows'[place]? = rows[place]? →
        answers'[k]? = answers[k]?

theorem RowByRow.agreeWhere {f : List β → Except ε (List γ)} (hf : RowByRow id f)
    {places : List Nat} {rows rows' : List β} (hrows : ∀ place ∈ places, rows[place]?.isSome)
    (hrows' : ∀ place ∈ places, rows'[place]?.isSome) :
    AgreeWhere places rows rows' (f (places.filterMap (rows[·]?)))
      (f (places.filterMap (rows'[·]?))) := by
  rcases hf with ⟨fault, hf⟩ | ⟨g, hf⟩
  · exact Or.inl ⟨fault, hf _, hf _⟩
  · refine Or.inr ⟨_, _, hf _, hf _, ?_, ?_, fun k place hplace hsame => ?_⟩
    · exact (List.length_map _).trans (length_filterMap_of_isSome hrows)
    · exact (List.length_map _).trans (length_filterMap_of_isSome hrows')
    · rw [id, id, List.getElem?_map, List.getElem?_map,
        getElem?_filterMap_of_isSome hrows hplace, getElem?_filterMap_of_isSome hrows' hplace,
        hsame]

end

variable {α : Type} [Scalar α]

theorem Standardizer.rowByRow_transform (s : Standardizer α) (d : Nat) :
    RowByRow (Table.mk d) fun rows => s.transform ⟨d, rows⟩ := by
  cases hs : s.statistics with
  | none => exact Or.inl ⟨_, fun rows => transform_eq_notFitted_iff.2 hs⟩
  | some st =>
      by_cases h : d = st.width
      · subst h
        exact Or.inr ⟨st.standardize, transform_eq hs⟩
      · exact Or.inl ⟨.dimension (.statistics st.width d), fun rows =>
          transform_eq_dimension_iff.2 ⟨st, hs, h, rfl⟩⟩

theorem Estimator.rowByRow_probabilities (model : Estimator α) (d : Nat) :
    RowByRow id fun rows : List (Vec α d) => model.probabilities ⟨d, rows⟩ := by
  cases hc : model.coefficients with
  | none =>
      refine Or.inl ⟨.notFitted, fun rows => ?_⟩
      show model.probabilities ⟨d, rows⟩ = _
      rw [probabilities, hc]
  | some c =>
      cases hw : Vec.ofList? d c with
      | none =>
          refine Or.inl ⟨.dimension (.width d .coefficients c.length), fun rows => ?_⟩
          show model.probabilities ⟨d, rows⟩ = _
          rw [probabilities, hc]
          show (Table.point ⟨d, rows⟩ _ c >>= _) = _
          rw [Table.point, hw]
          rfl
      | some w =>
          rw [Vec.ofList?_eq_some_iff.1 hw] at hc
          exact Or.inr ⟨fun row => sigmoid (row.dot w + model.intercept.getD 0),
            fun rows => probabilities_eq (x := ⟨d, rows⟩) hc⟩

theorem Estimator.rowByRow_predict (model : Estimator α) (d : Nat) :
    RowByRow id fun rows : List (Vec α d) => model.predict ⟨d, rows⟩ :=
  (model.rowByRow_probabilities d).bind (Or.inr ⟨Label.ofProbability, fun _ => rfl⟩)

/-! ## The rows of either part -/

namespace Dataset

/-- The places of the rows to fit on and of those to test on. -/
def places (size : Nat) (testSize : α) (seed : UInt64) : List Nat × List Nat :=
  (Random.shuffled size seed).splitAt (size - Scalar.roundNat ((size : α) * testSize))

theorem perm_places (size : Nat) (testSize : α) (seed : UInt64) :
    ((places size testSize seed).1 ++ (places size testSize seed).2).Perm (List.range size) := by
  rw [places, List.splitAt_eq, List.take_append_drop]
  exact Random.perm_shuffled size seed

theorem length_places (size : Nat) (testSize : α) (seed : UInt64) :
    (places size testSize seed).1.length =
      size - Scalar.roundNat ((size : α) * testSize) := by
  rw [places, List.splitAt_eq, List.length_take, (Random.perm_shuffled size seed).length_eq,
    List.length_range]
  exact Nat.min_eq_left (Nat.sub_le _ _)

theorem shuffledSplit_eq_places (ds : Dataset α) {testSize : α}
    (h : 0 < testSize ∧ testSize < 1) (seed : UInt64) :
    ds.shuffledSplit testSize seed =
      .ok { train := ds.select (places ds.size testSize seed).1
            test := ds.select (places ds.size testSize seed).2 } := by
  rw [places, List.splitAt_eq]
  exact ds.shuffledSplit_eq_select h seed

omit [Scalar α] in
theorem select_congr {d : Nat} {rows rows' : List (Vec α d)} {labels labels' : List α}
    {places : List Nat}
    (h : ∀ place ∈ places, rows'[place]? = rows[place]? ∧ labels'[place]? = labels[place]?) :
    select places ⟨⟨d, rows'⟩, labels'⟩ = select places ⟨⟨d, rows⟩, labels⟩ := by
  rw [select, select, Table.select, Table.select,
    List.filterMap_congr fun place hplace => (h place hplace).1,
    List.filterMap_congr fun place hplace => (h place hplace).2]

end Dataset

/-! ## What is learnt -/

variable [Eigensolver α]

/-- What is made of the part to fit on: the standardizer, the model that is fitted on the
standardised features, and how it does there. -/
def Split.learn (parts : Split α) (model : Estimator α) :
    Except (Error α) (Standardizer α × Logged α (Estimator α × Scores α)) := do
  let (standardizer, standard) ← Standardizer.fitTransform parts.train.features
  let fitted ← model.fit standard parts.train.labels
  return (standardizer,
    (fun model => (model, model.scores standard parts.train.labels)) <$> fitted)

theorem Split.learn_eq (parts : Split α) (model : Estimator α) :
    let x := parts.train.features
    let standard : Table α := ⟨x.width, x.rows.map x.statistics.standardize⟩
    parts.learn model =
      if x.height = 0 then .error (.dimension .noRows)
      else do
        let fitted ← model.fit standard parts.train.labels
        return (.fittedOn x,
          (fun model => (model, model.scores standard parts.train.labels)) <$> fitted) := by
  intro x standard
  rw [learn, Standardizer.fitTransform_eq]
  split <;> rfl

theorem Split.exists_learn {parts : Split α} {model : Estimator α}
    {fitted : Logged α (Estimator α)} (hheight : parts.train.features.height ≠ 0)
    (hfit : model.fit ⟨parts.train.features.width,
      parts.train.features.rows.map parts.train.features.statistics.standardize⟩
        parts.train.labels = .ok fitted) :
    ∃ learnt, parts.learn model = .ok learnt :=
  ⟨_, (parts.learn_eq model).trans ((if_neg hheight).trans (congrArg (· >>= _) hfit))⟩

theorem Estimator.exists_coefficients_of_fit {model : Estimator α} {x : Table α} {y : List α}
    {fitted : Logged α (Estimator α)} (h : model.fit x y = .ok fitted) :
    ∃ w : Vec α x.width, fitted.value.coefficients = some w.toList := by
  obtain ⟨run, -, hvalue⟩ := value_of_fit h
  obtain ⟨w, b, hkeep, -⟩ := model.exists_keep_eq run.value
  exact ⟨w, by rw [hvalue, hkeep]⟩

/-- What is learnt keeps the statistics of the part to fit on, and has coefficients for tables
as wide as that. -/
theorem Split.standardizer_of_learn {parts : Split α} {model : Estimator α}
    {standardizer : Standardizer α} {fitted : Logged α (Estimator α × Scores α)}
    (h : parts.learn model = .ok (standardizer, fitted)) :
    standardizer = .fittedOn parts.train.features ∧
      ∃ w : Vec α parts.train.features.width,
        fitted.value.1.coefficients = some w.toList := by
  rw [learn_eq] at h
  split at h
  · injection h
  · obtain ⟨run, hrun, h⟩ := exists_of_bind_eq_ok h
    obtain ⟨rfl, rfl⟩ := Prod.mk.inj (Except.ok.inj h)
    obtain ⟨w, hw⟩ := Estimator.exists_coefficients_of_fit hrun
    exact ⟨rfl, w, hw⟩

/-- What is learnt answers for any table as wide as that of the part to fit on. -/
theorem Split.answers_of_learn {parts : Split α} {model : Estimator α}
    {standardizer : Standardizer α} {fitted : Logged α (Estimator α × Scores α)}
    (h : parts.learn model = .ok (standardizer, fitted))
    (rows : List (Vec α parts.train.features.width)) :
    ∃ standard probabilities labels,
      standardizer.transform ⟨parts.train.features.width, rows⟩ = .ok standard ∧
      fitted.value.1.probabilities standard = .ok probabilities ∧
      fitted.value.1.predict standard = .ok labels := by
  obtain ⟨rfl, w, hw⟩ := standardizer_of_learn h
  let standard : Table α := ⟨_, rows.map parts.train.features.statistics.standardize⟩
  exact ⟨standard, _, _, Standardizer.transform_fittedOn _ rows,
    Estimator.probabilities_eq (x := standard) hw, Estimator.predict_eq (x := standard) hw⟩

/-- The number of rows, the share and the seed decide at which places the rows to fit on are.
Where two datasets agree there, the same statistics are taken, the same model is fitted, or
refused for the same reason, and it does as well on the rows that it was fitted on. A row to
test on that is the same in both is standardised alike, and has the same probability and label,
whatever the other rows to test on are. Nothing of this is refused where something was
learnt. -/
theorem Split.heldOut_unseen (n : Nat) {testSize : α} (hrange : 0 < testSize ∧ testSize < 1)
    (seed : UInt64) :
    ∃ train test : List Nat,
      train.length = n - Scalar.roundNat ((n : α) * testSize) ∧
      (train ++ test).Perm (List.range n) ∧
      ∀ (d : Nat) (rows rows' : List (Vec α d)) (labels labels' : List α),
        rows.length = n → rows'.length = n →
        (∀ place ∈ train, rows'[place]? = rows[place]? ∧ labels'[place]? = labels[place]?) →
        let ds : Dataset α := ⟨⟨d, rows⟩, labels⟩
        let ds' : Dataset α := ⟨⟨d, rows'⟩, labels'⟩
        ∃ parts parts', ds.shuffledSplit testSize seed = .ok parts ∧
          ds'.shuffledSplit testSize seed = .ok parts' ∧
          parts.train = ds.select train ∧ parts'.train = parts.train ∧
          parts.test = ds.select test ∧ parts'.test = ds'.select test ∧
          Standardizer.fitTransform parts'.train.features =
            Standardizer.fitTransform parts.train.features ∧
          (∀ model, parts'.learn model = parts.learn model) ∧
          (∀ (standardizer : Standardizer α) (model : Estimator α),
            let answers {γ : Type} (f : Table α → Except (Error α) (List γ)) (x : Table α) :=
              standardizer.transform x >>= f
            AgreeWhere test rows rows'
              (answers (fun x => .ok (x.rows.map Vec.toList)) parts.test.features)
              (answers (fun x => .ok (x.rows.map Vec.toList)) parts'.test.features) ∧
            AgreeWhere test rows rows' (answers model.probabilities parts.test.features)
              (answers model.probabilities parts'.test.features) ∧
            AgreeWhere test rows rows' (answers model.predict parts.test.features)
              (answers model.predict parts'.test.features)) ∧
          ∀ model standardizer fitted, parts.learn model = .ok (standardizer, fitted) →
            ∃ standard probabilities predicted,
              standardizer.transform parts.test.features = .ok standard ∧
              fitted.value.1.probabilities standard = .ok probabilities ∧
              fitted.value.1.predict standard = .ok predicted := by
  have hperm := Dataset.perm_places n testSize seed
  refine ⟨_, _, Dataset.length_places n testSize seed, hperm,
    fun d rows rows' labels labels' hrows hrows' hsame => ?_⟩
  intro ds ds'
  have hparts := ds.shuffledSplit_eq_places hrange seed
  have hparts' := ds'.shuffledSplit_eq_places hrange seed
  rw [show ds.size = n from hrows] at hparts
  rw [show ds'.size = n from hrows'] at hparts'
  have htrain : ds'.select (Dataset.places n testSize seed).1 =
      ds.select (Dataset.places n testSize seed).1 := Dataset.select_congr hsame
  have hsome : ∀ rows : List (Vec α d), rows.length = n →
      ∀ place ∈ (Dataset.places n testSize seed).2, rows[place]?.isSome := by
    rintro rows rfl place hplace
    exact Dataset.isSome_of_mem_order hperm (List.mem_append_right _ hplace)
  refine ⟨_, _, hparts, hparts', rfl, htrain, rfl, rfl, ?_, fun model => ?_,
    fun standardizer model => ?_, fun model standardizer fitted h => ?_⟩
  · exact congrArg (fun part : Dataset α => Standardizer.fitTransform part.features) htrain
  · exact congrArg (fun part => Split.learn ⟨part, part⟩ model) htrain
  · have hagree {γ : Type} {f : Table α → Except (Error α) (List γ)}
        (hf : RowByRow id fun rows : List (Vec α d) => f ⟨d, rows⟩) :=
      ((standardizer.rowByRow_transform d).bind hf).agreeWhere (hsome rows hrows)
        (hsome rows' hrows')
    exact ⟨hagree (Or.inr ⟨Vec.toList, fun _ => rfl⟩), hagree (model.rowByRow_probabilities d),
      hagree (model.rowByRow_predict d)⟩
  · exact Split.answers_of_learn h _

/-- Of two rows the one to test on is replaced by another. -/
theorem Split.heldOut_unseen_replaced :
    let rows : List (Vec ℝ 1) := [.replicate 1 0, .replicate 1 2]
    let model : Estimator ℝ := .ofSettings { Settings.standard with step := some 1 }
    ((0 : ℝ) < 1 / 2 ∧ (1 / 2 : ℝ) < 1) ∧ ∃ place < 2, ∃ parts parts' : Split ℝ,
      Dataset.shuffledSplit ⟨⟨1, rows⟩, [1, 1]⟩ (1 / 2) 0 = .ok parts ∧
      Dataset.shuffledSplit ⟨⟨1, rows.set place (.replicate 1 7)⟩, [1, 1]⟩ (1 / 2) 0 =
        .ok parts' ∧
      parts'.test.features = ⟨1, [.replicate 1 7]⟩ ∧
      parts'.learn model = parts.learn model ∧ ∃ learnt, parts.learn model = .ok learnt := by
  intro rows model
  have hrange : (0 : ℝ) < 1 / 2 ∧ (1 / 2 : ℝ) < 1 := ⟨one_half_pos, one_half_lt_one⟩
  obtain ⟨train, test, hlength, hperm, hsame⟩ := heldOut_unseen 2 hrange 0
  -- One of the two rows is to fit on, and the other to test on.
  have hround : Scalar.roundNat (((2 : Nat) : ℝ) * (1 / 2)) = 1 := by
    rw [Dataset.roundNat_eq]
    norm_num
  rw [hround] at hlength
  obtain ⟨kept, rfl⟩ := List.length_eq_one_iff.1 hlength
  obtain ⟨place, rfl⟩ := List.length_eq_one_iff.1 (Nat.succ.inj hperm.length_eq)
  have hkept : kept < 2 := List.mem_range.1 (hperm.mem_iff.1 List.mem_cons_self)
  have hplace : place < 2 :=
    List.mem_range.1 (hperm.mem_iff.1 (List.mem_cons_of_mem _ List.mem_cons_self))
  have hne : place ≠ kept := by
    have hnodup : [kept, place].Nodup := hperm.nodup_iff.2 List.nodup_range
    exact fun h => (List.nodup_cons.1 hnodup).1 (h ▸ List.mem_cons_self)
  obtain ⟨parts, parts', hparts, hparts', htrain, -, -, htest', -, hlearn, -⟩ :=
    hsame 1 rows (rows.set place (.replicate 1 7)) [1, 1] [1, 1] rfl List.length_set
      (by simp [hne])
  refine ⟨hrange, place, hplace, parts, parts', hparts, hparts', ?_, hlearn model, ?_⟩
  · rw [htest']
    simp [Dataset.select, Table.select, rows, hplace]
  · obtain ⟨row, hrow⟩ : ∃ row, parts.train = ⟨⟨1, [row]⟩, [1]⟩ := by
      obtain rfl | rfl : kept = 0 ∨ kept = 1 := by omega
      · exact ⟨_, htrain⟩
      · exact ⟨_, htrain⟩
    obtain ⟨train, test⟩ := parts
    obtain rfl : train = _ := hrow
    let p : Problem ℝ 1 :=
      ⟨[⟨(Table.mk 1 [row]).statistics.standardize row, .positive⟩], List.cons_ne_nil _ _⟩
    obtain ⟨fitted, hfit⟩ : ∃ fitted, model.fit p.table [1] = .ok fitted :=
      Estimator.exists_fit_iff.2 ⟨⟨p, p.ofData_table⟩, 1, rfl, Params.check_eq_ok_iff.2
        (Params.sound_standard (show (0 : ℝ) ≤ 0.1 by norm_num) zero_lt_one 300)⟩
    exact exists_learn Nat.one_ne_zero hfit

end RidgeLogistic
