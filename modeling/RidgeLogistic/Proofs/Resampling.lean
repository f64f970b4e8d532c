import RidgeLogistic.Proofs.Convexity
import RidgeLogistic.Proofs.Fitted
import RidgeLogistic.Proofs.Transfer

/-!
# Samples in another order and number

Everything that is computed from a problem is computed from means over its samples: the
objective and its gradient, the error rate, the entries of the Gram matrix. Over exact
arithmetic a mean does not see the order of what it is taken of, nor that all of it is there
several times (`Problem.Repeats.mean_eq`). So data that has the samples of other data equally
often poses a problem with the same objective and gradient, and all that is built on these
two is the same.

Each of those quantities divides by the number of samples in its own place. A division that
was left out in one of them would leave `mean_eq` nothing to say there.
-/

namespace RidgeLogistic

variable {d : Nat} {σ : Type}

/-! ## Lists -/

section

variable {β : Type} (times : Nat) (xs : List β)

theorem map_flatMap_replicate {γ : Type} (f : β → γ) :
    (xs.flatMap (List.replicate times)).map f = (xs.map f).flatMap (List.replicate times) := by
  simp only [List.map_flatMap, List.flatMap_map, List.map_replicate]

theorem sum_map_flatMap_replicate (f : β → ℝ) :
    ((xs.flatMap (List.replicate times)).map f).sum = times * (xs.map f).sum := by
  induction xs with
  | nil => simp
  | cons x xs ih => simp [ih, mul_add]

theorem length_flatMap_replicate :
    (xs.flatMap (List.replicate times)).length = times * xs.length := by
  induction xs with
  | nil => rfl
  | cons x xs ih => simp [ih, Nat.mul_succ, Nat.add_comm]

theorem countP_flatMap_replicate (test : β → Bool) :
    (xs.flatMap (List.replicate times)).countP test = times * xs.countP test := by
  induction xs with
  | nil => simp
  | cons x xs ih =>
      rw [List.flatMap_cons, List.countP_append, ih, List.countP_replicate, List.countP_cons]
      split <;> ring

end

/-! ## Problems -/

/-- A problem has the samples of another one, each of them the same number of times. -/
structure Problem.Repeats (times : Nat) (p p' : Problem ℝ d) : Prop where
  times_pos : 0 < times
  perm : p'.samples.Perm (p.samples.flatMap (List.replicate times))

namespace Problem.Repeats

variable {times : Nat} {p p' : Problem ℝ d} (h : p.Repeats times p')

include h

theorem size_eq : p'.size = times * p.size := by
  rw [size, size, h.perm.length_eq, length_flatMap_replicate]

theorem mean_eq (f : Sample ℝ d → ℝ) :
    (p'.samples.map f).sum / p'.size = (p.samples.map f).sum / p.size := by
  have htimes : (times : ℝ) ≠ 0 := Nat.cast_ne_zero.2 h.times_pos.ne'
  rw [(h.perm.map f).sum_eq, sum_map_flatMap_replicate, h.size_eq, Nat.cast_mul,
    mul_div_mul_left _ _ htimes]

theorem objective_eq (penalty : ℝ) (β : Vec ℝ d) :
    p'.objective penalty β = p.objective penalty β := by
  rw [objective_eq_sum, objective_eq_sum, h.mean_eq]

theorem gradient_eq (penalty : ℝ) (β : Vec ℝ d) :
    p'.gradient penalty β = p.gradient penalty β := by
  refine Vec.ext_dot fun v => ?_
  rw [gradient_dot, gradient_dot, h.mean_eq]

theorem misclassification_eq (β : Vec ℝ d) : p'.misclassification β = p.misclassification β := by
  have htimes : (times : ℝ) ≠ 0 := Nat.cast_ne_zero.2 h.times_pos.ne'
  show (p'.samples.countP (·.misclassified β) : ℝ) / (p'.size : ℝ) =
    (p.samples.countP (·.misclassified β) : ℝ) / (p.size : ℝ)
  rw [h.perm.countP_eq, countP_flatMap_replicate, h.size_eq, Nat.cast_mul, Nat.cast_mul,
    mul_div_mul_left _ _ htimes]

theorem transfers : p.Transfers id p' :=
  .id_of_eq h.objective_eq h.gradient_eq

end Problem.Repeats

/-! ## Data -/

/-- The rows and responses of one set of data, pair by pair, are those of another one in some
order, each of them the same number of times. -/
structure Resampled (times : Nat) (rows : List (Vec ℝ d)) (y : List ℝ)
    (rows' : List (Vec ℝ d)) (y' : List ℝ) : Prop where
  times_pos : 0 < times
  length_eq : rows'.length = y'.length
  perm : (rows'.zip y').Perm ((rows.zip y).flatMap (List.replicate times))

/-- What data says of a sample. -/
noncomputable def Sample.datum (s : Sample ℝ d) : Vec ℝ d × ℝ :=
  (s.features, s.label.value)

theorem Sample.datum_injective : Function.Injective (Sample.datum : Sample ℝ d → _) := by
  intro s s' h
  obtain ⟨hfeatures, hlabel⟩ := Prod.mk.inj h
  cases s
  cases s'
  rw [Sample.mk.injEq]
  exact ⟨hfeatures, Label.value_injective hlabel⟩

theorem Problem.zip_of_ofData {rows : List (Vec ℝ d)} {y : List ℝ} {p : Problem ℝ d}
    (hp : Problem.ofData ⟨d, rows⟩ y = .ok p) : rows.zip y = p.samples.map Sample.datum := by
  obtain ⟨labels, hlabels, hlength, hsamples⟩ := samples_of_ofData hp
  rw [hsamples, ← Label.map_value_of_readFrom hlabels, List.zip_map_right, List.map_zipWith,
    ← List.map_uncurry_zip_eq_zipWith]
  rfl

namespace Resampled

variable {times : Nat} {rows rows' : List (Vec ℝ d)} {y y' : List ℝ} {p : Problem ℝ d}

theorem exists_problem (h : Resampled times rows y rows' y')
    (hp : Problem.ofData ⟨d, rows⟩ y = .ok p) :
    ∃ p', Problem.ofData ⟨d, rows'⟩ y' = .ok p' ∧ p.Repeats times p' := by
  have hperm := h.perm
  rw [Problem.zip_of_ofData hp, ← map_flatMap_replicate] at hperm
  -- Every pair of the new data is one of a sample, so the pairs are those of some samples.
  obtain ⟨samples, hsamples⟩ : rows'.zip y' ∈ Set.range (List.map Sample.datum) := by
    rw [Set.range_list_map]
    intro pair hpair
    obtain ⟨s, -, hs⟩ := List.mem_map.1 (hperm.mem_iff.1 hpair)
    exact ⟨s, hs⟩
  rw [← hsamples, List.map_perm_map_iff Sample.datum_injective] at hperm
  have hne : samples ≠ [] := by
    rintro rfl
    have hlength := hperm.length_eq
    rw [length_flatMap_replicate] at hlength
    exact (Nat.mul_pos h.times_pos p.size_pos).ne hlength
  have hrows : samples.map Sample.features = rows' := by
    rw [← List.map_fst_zip h.length_eq.le, ← hsamples, List.map_map]
    rfl
  have hy : (samples.map Sample.label).map Label.value = y' := by
    rw [← List.map_snd_zip h.length_eq.ge, ← hsamples, List.map_map, List.map_map]
    rfl
  refine ⟨⟨samples, hne⟩, ?_, h.times_pos, hperm⟩
  rw [← hrows, ← hy]
  exact Problem.ofData_table ⟨samples, hne⟩

theorem map_rows {e : Nat} (h : Resampled times rows y rows' y') (f : Vec ℝ d → Vec ℝ e) :
    Resampled times (rows.map f) y (rows'.map f) y' := by
  refine ⟨h.times_pos, (List.length_map f).trans h.length_eq, ?_⟩
  have hperm := h.perm.map (Prod.map f id)
  rw [map_flatMap_replicate] at hperm
  rwa [List.zip_map_left, List.zip_map_left]

end Resampled

/-! ## Calls -/

section

variable {rows rows' : List (Vec ℝ d)} {y y' : List ℝ} {p p' : Problem ℝ d} {times : Nat}
  (hp : Problem.ofData ⟨d, rows⟩ y = .ok p) (hp' : Problem.ofData ⟨d, rows'⟩ y' = .ok p')
  (h : p.Repeats times p')

include hp

theorem Problem.get_gram_of_ofData (i j : Fin d) :
    ((Table.mk d rows).gram.get i).get j =
      (p.samples.map fun s => s.features.get i * s.features.get j).sum / p.size := by
  rw [Table.get_gram, size_of_ofData hp, ← features_of_ofData hp, List.map_map]
  rfl

include hp' h

theorem gram_repeated : (Table.mk d rows').gram = (Table.mk d rows).gram := by
  refine Vec.ext_get fun i => Vec.ext_get fun j => ?_
  rw [Problem.get_gram_of_ofData hp', Problem.get_gram_of_ofData hp, h.mean_eq]

theorem misclassification_repeated (β : List ℝ) :
    misclassification ⟨d, rows'⟩ y' β = misclassification ⟨d, rows⟩ y β := by
  rw [misclassification, misclassification, hp, hp', Table.point_mk rows rows']
  simp only [bind, Except.bind, h.misclassification_eq]

variable [Eigensolver ℝ]

theorem initialStep_repeated (penalty : ℝ) :
    initialStep ⟨d, rows'⟩ (Table.mk d rows').height d penalty =
      initialStep ⟨d, rows⟩ (Table.mk d rows).height d penalty := by
  have hheight : (Table.mk d rows).height ≠ 0 := by
    rw [← Problem.size_of_ofData hp]
    exact p.size_pos.ne'
  have hheight' : (Table.mk d rows').height ≠ 0 := by
    rw [← Problem.size_of_ofData hp']
    exact p'.size_pos.ne'
  have hlargest : (Table.mk d rows').largestEigenvalue = (Table.mk d rows).largestEigenvalue := by
    rw [Table.largestEigenvalue, Table.largestEigenvalue, gram_repeated hp hp' h]
  simp only [initialStep, ne_eq, not_true_eq_false, or_self, if_false, hheight, hheight',
    false_or, hlargest]

theorem run_repeated (settings : Settings ℝ) :
    settings.run ⟨d, rows'⟩ y' = settings.run ⟨d, rows⟩ y := by
  have hstep : settings.firstStep ⟨d, rows'⟩ = settings.firstStep ⟨d, rows⟩ := by
    rw [Settings.firstStep, Settings.firstStep]
    cases settings.step with
    | some step => rfl
    | none => exact initialStep_repeated hp hp' h settings.penalty
  rw [Settings.run, Settings.run, hstep]
  refine bind_congr fun step => bind_congr fun solver => ?_
  cases settings.scheme with
  | plain =>
      exact congrArg (Functor.map _) (descendWith_congr hp hp' h.transfers solver _ _ ())
  | accelerated =>
      exact congrArg
        (fun run => Functor.map (Functor.map Prod.fst) run >>= fun paths =>
          pure (Paths.estimates <$> paths))
        (accelerateWith_congr hp hp' h.transfers solver _ _ _ ())

end

/-- The rows of a design come from those of the table one by one. -/
theorem Settings.exists_design_rows (settings : Settings ℝ) (d : Nat) :
    ∃ (e : Nat) (f : Vec ℝ d → Vec ℝ e), ∀ rows : List (Vec ℝ d),
      settings.design ⟨d, rows⟩ = ⟨e, rows.map f⟩ := by
  cases hflag : settings.intercept with
  | false =>
      refine ⟨d, id, fun rows => ?_⟩
      rw [design, hflag, List.map_id]
      rfl
  | true =>
      refine ⟨d + 1, Vec.cons 1, fun rows => ?_⟩
      rw [design, hflag]
      rfl

namespace Resampled

section

variable [Eigensolver ℝ] {times : Nat} {rows rows' : List (Vec ℝ d)} {y y' : List ℝ}
  {p : Problem ℝ d}

theorem fit_eq (h : Resampled times rows y rows' y')
    (hp : Problem.ofData ⟨d, rows⟩ y = .ok p) (model : Estimator ℝ) :
    model.fit ⟨d, rows'⟩ y' = model.fit ⟨d, rows⟩ y := by
  obtain ⟨p', hp', -⟩ := h.exists_problem hp
  obtain ⟨e, f, hdesign⟩ := model.settings.exists_design_rows d
  have hdata : ∃ q, Problem.ofData (model.settings.design ⟨d, rows⟩) y = .ok q :=
    model.settings.exists_ofData_design_iff.2 ⟨p, hp⟩
  rw [hdesign] at hdata
  obtain ⟨q, hq⟩ := hdata
  obtain ⟨q', hq', hrepeats⟩ := (h.map_rows f).exists_problem hq
  rw [Estimator.fit, Estimator.fit, hp, hp', hdesign, hdesign,
    run_repeated hq hq' hrepeats model.settings]
  rfl

/-- Data that has the samples of other data, in any order and each of them equally often, poses
a problem too, and it gives the same in all that is computed from data: in the evaluations at
any list, in the step derived from the table, in a search with its trials and its log, in the
runs with all that an observer makes of them, and in a fit. -/
theorem calls_eq (h : Resampled times rows y rows' y')
    (hp : Problem.ofData ⟨d, rows⟩ y = .ok p) :
    let x : Table ℝ := ⟨d, rows⟩
    let x' : Table ℝ := ⟨d, rows'⟩
    (∃ p', Problem.ofData x' y' = .ok p') ∧
    (∀ β penalty, objective x' y' β penalty = objective x y β penalty) ∧
    (∀ β penalty, gradient x' y' β penalty = gradient x y β penalty) ∧
    (∀ β, misclassification x' y' β = misclassification x y β) ∧
    (∀ penalty, initialStep x' x'.height x'.width penalty =
      initialStep x x.height x.width penalty) ∧
    (∀ β penalty step search, lineSearch x' y' β penalty step search =
      lineSearch x y β penalty step search) ∧
    (∀ (solver : Solver ℝ) (σ : Type) (observer : Observer ℝ d σ) (state : σ) (β θ : List ℝ),
      solver.descendWith x' y' β observer state = solver.descendWith x y β observer state ∧
      solver.accelerateWith x' y' β θ observer state =
        solver.accelerateWith x y β θ observer state) ∧
    ∀ model : Estimator ℝ, model.fit x' y' = model.fit x y := by
  intro x x'
  obtain ⟨p', hp', hrepeats⟩ := h.exists_problem hp
  have htransfers := hrepeats.transfers
  refine ⟨⟨p', hp'⟩, objective_congr hp hp' htransfers, gradient_congr hp hp' htransfers,
    misclassification_repeated hp hp' hrepeats, initialStep_repeated hp hp' hrepeats,
    lineSearch_congr hp hp' htransfers, ?_, h.fit_eq hp⟩
  intro solver σ observer state β θ
  exact ⟨descendWith_congr hp hp' htransfers solver β observer state,
    accelerateWith_congr hp hp' htransfers solver β θ observer state⟩

end

/-- Two samples, each of them twice and the two orders mixed, with an intercept. -/
theorem calls_eq_twice :
    let rows : List (Vec ℝ 1) := [⟨[1], rfl⟩, ⟨[2], rfl⟩]
    let rows' : List (Vec ℝ 1) := [⟨[2], rfl⟩, ⟨[1], rfl⟩, ⟨[1], rfl⟩, ⟨[2], rfl⟩]
    let model : Estimator ℝ := .ofSettings
      { Settings.standard with step := some 1, intercept := true }
    Resampled 2 rows [1, -1] rows' [-1, 1, 1, -1] ∧
    (∃ p, Problem.ofData ⟨1, rows⟩ [1, -1] = .ok p) ∧
    ∃ fitted, model.fit ⟨1, rows⟩ [1, -1] = .ok fitted ∧
      model.fit ⟨1, rows'⟩ [-1, 1, 1, -1] = .ok fitted := by
  intro rows rows' model
  have hresampled : Resampled 2 rows [1, -1] rows' [-1, 1, 1, -1] := by
    refine ⟨two_pos, rfl, ?_⟩
    let one : Vec ℝ 1 × ℝ := (⟨[1], rfl⟩, 1)
    let two : Vec ℝ 1 × ℝ := (⟨[2], rfl⟩, -1)
    have hmiddle : ([one, one] ++ two :: [two]).Perm (two :: ([one, one] ++ [two])) :=
      List.perm_middle
    exact hmiddle.symm
  obtain ⟨p, hp⟩ : ∃ p, Problem.ofData ⟨1, rows⟩ [1, -1] = .ok p :=
    Problem.exists_ofData_iff.2 ⟨rfl, by decide,
      _, Label.readFrom_map_value 0 [.positive, .negative]⟩
  have hsound : (model.settings.params 1).Sound :=
    Params.sound_standard (show (0 : ℝ) ≤ 0.1 by norm_num) zero_lt_one 300
  obtain ⟨fitted, hfit⟩ := Estimator.exists_fit_iff.2
    ⟨⟨p, hp⟩, 1, rfl, Params.check_eq_ok_iff.2 hsound⟩
  obtain ⟨-, -, -, -, -, -, -, hmodel⟩ := calls_eq hresampled hp
  exact ⟨hresampled, ⟨p, hp⟩, fitted, hfit, (hmodel model).trans hfit⟩

end Resampled

end RidgeLogistic
