import RidgeLogistic.Proofs.Fitted
import RidgeLogistic.Proofs.Rayleigh

/-!
# What a fit demands

A fit passes through about ten checks, in five functions, some of them made twice and some made
only where the first step is derived. This file puts all that they demand into one list
(`Estimator.demands`), each demand with the fault that it is refused for, and says that a fit is
refused for the first demand of the list that is not met, and for nothing else
(`Estimator.refused_for_first_unmet`).

A check and its demands are tied by an equation between two options, what the call is refused for
and the first fault of the list. The equation goes through the calls as they are made:
where one call follows on another, the lists are appended (`refusal?_bind`). What remains is to see
that the later parts demand nothing new. The design has the height of the table, so that it poses a
problem too; a derived step is positive; and the start at zero has the width of the design.
-/

namespace RidgeLogistic

/-! ## Demands in order -/

section

variable {α : Type}

/-- Something that has to hold for a call to go through, and what the call is refused for where it
does not. -/
structure Demand (α : Type) where
  met : Prop
  fault : Error α

open Classical in
/-- What the first demand that is not met is refused for. -/
noncomputable def firstFault? : List (Demand α) → Option (Error α)
  | [] => none
  | demand :: demands => if demand.met then firstFault? demands else some demand.fault

theorem firstFault?_cons_of_met {demand : Demand α} (h : demand.met)
    (demands : List (Demand α)) : firstFault? (demand :: demands) = firstFault? demands := by
  rw [firstFault?, if_pos h]

theorem firstFault?_cons_of_not_met {demand : Demand α} (h : ¬demand.met)
    (demands : List (Demand α)) : firstFault? (demand :: demands) = some demand.fault := by
  rw [firstFault?, if_neg h]

theorem firstFault?_cons_congr {demands demands' : List (Demand α)}
    (h : firstFault? demands = firstFault? demands') (demand : Demand α) :
    firstFault? (demand :: demands) = firstFault? (demand :: demands') := by
  rw [firstFault?, firstFault?, h]

theorem firstFault?_eq_none_iff {demands : List (Demand α)} :
    firstFault? demands = none ↔ ∀ demand ∈ demands, demand.met := by
  induction demands with
  | nil => simp [firstFault?]
  | cons demand demands ih =>
      by_cases h : demand.met
      · simp [firstFault?_cons_of_met h, h, ih]
      · simp [firstFault?_cons_of_not_met h, h]

theorem firstFault?_append (demands later : List (Demand α)) :
    firstFault? (demands ++ later) = (firstFault? demands).or (firstFault? later) := by
  induction demands with
  | nil => rfl
  | cons demand demands ih =>
      by_cases h : demand.met
      · rw [List.cons_append, firstFault?_cons_of_met h, firstFault?_cons_of_met h, ih]
      · rw [List.cons_append, firstFault?_cons_of_not_met h, firstFault?_cons_of_not_met h]
        rfl

/-- The demands of one call after another are those of both, in this order. -/
theorem refusal?_bind {β γ : Type} {first : Except (Error α) β}
    {next : β → Except (Error α) γ} {demands later : List (Demand α)}
    (hfirst : refusal? first = firstFault? demands)
    (hnext : ∀ b, first = .ok b → refusal? (next b) = firstFault? later) :
    refusal? (first >>= next) = firstFault? (demands ++ later) := by
  rw [firstFault?_append, ← hfirst]
  exact refusal?_bind_eq_or hnext

end

/-! ## Data -/

section

variable {α : Type} [Scalar α]

/-- The entries are labels, the first of them having the given index. -/
def Label.demandsFrom : Nat → List α → List (Demand α)
  | _, [] => []
  | index, v :: vs => ⟨v = -1 ∨ v = 1, .label index v⟩ :: demandsFrom (index + 1) vs

/-- What data has to be like to pose a problem. -/
def Problem.demands (x : Table α) (y : List α) : List (Demand α) :=
  ⟨x.height = y.length, .dimension (.responses x.height y.length)⟩ ::
  ⟨x.height ≠ 0, .dimension .noSamples⟩ ::
  Label.demandsFrom 0 y

variable [LawfulLabels α]

theorem Label.isSome_ofSign?_iff_eq {v : α} : (ofSign? v).isSome ↔ v = -1 ∨ v = 1 := by
  rw [isSome_ofSign?_iff, IsSign, LawfulLabels.beq_one_iff, LawfulLabels.beq_neg_one_iff, or_comm]

theorem Label.refusal?_readFrom (index : Nat) (ys : List α) :
    refusal? (readFrom ofSign? index ys) = firstFault? (demandsFrom index ys) := by
  induction ys generalizing index with
  | nil => rfl
  | cons v ys ih =>
      by_cases hv : v = -1 ∨ v = 1
      · obtain ⟨label, hlabel⟩ := Option.isSome_iff_exists.1 (isSome_ofSign?_iff_eq.2 hv)
        rw [demandsFrom, firstFault?_cons_of_met hv, ← ih, readFrom, hlabel]
        show refusal? ((readFrom ofSign? (index + 1) ys).map (label :: ·)) = _
        cases readFrom ofSign? (index + 1) ys <;> rfl
      · have hnone : ofSign? v = none := by
          rwa [← Option.not_isSome_iff_eq_none, isSome_ofSign?_iff_eq]
        rw [demandsFrom, firstFault?_cons_of_not_met hv, readFrom, hnone]
        rfl

theorem Problem.refusal?_ofData (x : Table α) (y : List α) :
    refusal? (ofData x y) = firstFault? (demands x y) := by
  by_cases hheight : x.height = y.length
  · by_cases hempty : x.height = 0
    · rw [demands, firstFault?_cons_of_met hheight, firstFault?_cons_of_not_met (not_not.2 hempty),
        ofData, dif_neg (not_not.2 hheight), dif_pos hempty]
      rfl
    · rw [demands, firstFault?_cons_of_met hheight, firstFault?_cons_of_met hempty,
        ← Label.refusal?_readFrom, ofData, dif_neg (not_not.2 hheight), dif_neg hempty]
      split
      · next fault hfault => exact (congrArg refusal? hfault).symm
      · next labels hlabels => exact (congrArg refusal? hlabels).symm
  · rw [demands, firstFault?_cons_of_not_met hheight, ofData, dif_pos hheight]
    rfl

end

/-! ## Parameters -/

def penaltyDemand (penalty : ℝ) : Demand ℝ where
  met := 0 ≤ penalty
  fault := .hyperparameter (.penalty penalty)

def stepDemand (step : ℝ) : Demand ℝ where
  met := 0 < step
  fault := .hyperparameter (.step step)

def Backtracking.demands (search : Backtracking ℝ) : List (Demand ℝ) :=
  [⟨0 < search.decrease ∧ search.decrease ≤ 0.5, .hyperparameter (.decrease search.decrease)⟩,
    ⟨0 < search.shrink ∧ search.shrink < 1, .hyperparameter (.shrink search.shrink)⟩,
    ⟨search.maxTrials ≠ 0, .hyperparameter .maxTrials⟩]

theorem refusal?_checkPenalty (penalty : ℝ) :
    refusal? (checkPenalty penalty) = firstFault? [penaltyDemand penalty] := by
  by_cases h : 0 ≤ penalty
  · rw [firstFault?_cons_of_met h, checkPenalty_eq_ok_iff.2 h]
    rfl
  · rw [firstFault?_cons_of_not_met h, checkPenalty, if_neg fun hpen => h hpen.1]
    rfl

theorem refusal?_checkStep (step : ℝ) :
    refusal? (checkStep step) = firstFault? [stepDemand step] := by
  by_cases h : 0 < step
  · rw [firstFault?_cons_of_met h, checkStep_eq_ok_iff.2 h]
    rfl
  · rw [firstFault?_cons_of_not_met h, checkStep, if_neg fun hstep => h hstep.1]
    rfl

theorem Backtracking.refusal?_check (search : Backtracking ℝ) :
    refusal? search.check = firstFault? search.demands := by
  rw [check, demands]
  split
  · next h => rw [firstFault?_cons_of_not_met h]; rfl
  · next hdecrease =>
      rw [firstFault?_cons_of_met (not_not.1 hdecrease)]
      split
      · next h => rw [firstFault?_cons_of_not_met h]; rfl
      · next hshrink =>
          rw [firstFault?_cons_of_met (not_not.1 hshrink)]
          split
          · next h => rw [firstFault?_cons_of_not_met (not_not.2 h)]; rfl
          · next h => rw [firstFault?_cons_of_met h]; rfl

theorem Solver.refusal?_ofParams (params : Params ℝ) :
    refusal? (ofParams params) =
      firstFault? (penaltyDemand params.penalty :: stepDemand params.step ::
        params.search.demands) := by
  have hcheck : refusal? params.check = firstFault? ([penaltyDemand params.penalty] ++
      ([stepDemand params.step] ++ params.search.demands)) :=
    refusal?_bind (refusal?_checkPenalty _) fun _ _ =>
      refusal?_bind (refusal?_checkStep _) fun _ _ => params.search.refusal?_check
  refine Eq.trans ?_ hcheck
  rw [ofParams]
  split
  · next haccepted => exact (congrArg refusal? haccepted).symm
  · next fault hfault => exact (congrArg refusal? hfault).symm

/-! ## The first step -/

/-- What a table and a penalty have to be like for a step to be derived from them. -/
def initialStepDemands (x : Table ℝ) (penalty : ℝ) : List (Demand ℝ) :=
  [⟨x.width ≠ 0, .dimension .emptyTable⟩,
    penaltyDemand penalty,
    ⟨¬(x.IsZero ∧ penalty = 0), .hyperparameter .noCurvature⟩]

namespace Settings

/-- A first step demands something where it is derived, and nothing where it was chosen. -/
def firstStepDemands (settings : Settings ℝ) (design : Table ℝ) : List (Demand ℝ) :=
  match settings.step with
  | some _ => []
  | none => initialStepDemands design settings.penalty

/-- What a run on a design that poses a problem demands. A step that was chosen is judged only
after the penalty, and one that was derived never. -/
def demands (settings : Settings ℝ) (design : Table ℝ) : List (Demand ℝ) :=
  settings.firstStepDemands design ++
    penaltyDemand settings.penalty ::
      (settings.step.toList.map stepDemand ++ settings.search.demands)

end Settings

noncomputable def Estimator.demands (model : Estimator ℝ) (x : Table ℝ) (y : List ℝ) :
    List (Demand ℝ) :=
  Problem.demands x y ++ model.settings.demands (model.settings.design x)

section

variable [Eigensolver ℝ]

theorem initialStep_pos {x : Table ℝ} {samples features : Nat} {penalty η : ℝ}
    (h : initialStep x samples features penalty = .ok η) : 0 < η := by
  obtain ⟨-, -, -, largest, -, hpos, rfl⟩ := initialStep_eq_ok_iff.1 h
  exact one_div_pos.2 hpos

variable [ExactEigensolver]

theorem refusal?_initialStep {x : Table ℝ} (hrows : x.height ≠ 0) (penalty : ℝ) :
    refusal? (initialStep x x.height x.width penalty) =
      firstFault? (initialStepDemands x penalty) := by
  have hshape : ¬(x.height ≠ x.height ∨ x.width ≠ x.width) := by simp
  rw [initialStepDemands]
  by_cases hcols : x.width = 0
  · rw [firstFault?_cons_of_not_met (not_not.2 hcols), initialStep, if_neg hshape,
      if_pos (Or.inr hcols)]
    rfl
  · rw [firstFault?_cons_of_met hcols]
    by_cases hpen : 0 ≤ penalty
    · rw [firstFault?_cons_of_met hpen]
      by_cases hzero : x.IsZero ∧ penalty = 0
      · rw [firstFault?_cons_of_not_met (not_not.2 hzero), hzero.2,
          initialStep_of_isZero hrows hcols hzero.1]
        rfl
      · obtain ⟨largest, -, -, hstep⟩ := exists_initialStep hrows hcols hpen hzero
        rw [firstFault?_cons_of_met hzero, hstep]
        rfl
    · have hrefused : checkPenalty penalty = .error (penaltyDemand penalty).fault := by
        rw [← refusal?_eq_some_iff, refusal?_checkPenalty, firstFault?_cons_of_not_met hpen]
      rw [firstFault?_cons_of_not_met hpen, initialStep, if_neg hshape,
        if_neg (not_or.2 ⟨hrows, hcols⟩), hrefused]
      rfl

theorem Settings.refusal?_firstStep (settings : Settings ℝ) {design : Table ℝ}
    (hrows : design.height ≠ 0) :
    refusal? (settings.firstStep design) = firstFault? (settings.firstStepDemands design) := by
  rw [firstStep, firstStepDemands]
  cases settings.step with
  | some step => rfl
  | none => exact refusal?_initialStep hrows settings.penalty

end

/-! ## Fits -/

namespace Solver

variable {α : Type} [Scalar α] {x : Table α} {y : List α} {p : Problem α x.width}

/-- A solver takes any data that poses a problem, from zero. -/
theorem exists_run_from_zero (hp : Problem.ofData x y = .ok p) (solver : Solver α) :
    let origin := List.replicate x.width 0
    (∃ run, solver.descend x y origin = .ok run) ∧
      ∃ run, solver.accelerate x y origin origin = .ok run := by
  obtain ⟨log, hplain⟩ := descendWith_eq hp solver 0 (.logger solver.params.logEvery) ()
  obtain ⟨log', haccelerated⟩ :=
    accelerateWith_eq hp solver 0 0 (.logger solver.params.logEvery) ()
  exact ⟨⟨_, congrArg (Functor.map (Functor.map Prod.fst)) hplain⟩,
    _, congrArg (Functor.map (Functor.map Prod.fst)) haccelerated⟩

end Solver

section

variable [Eigensolver ℝ]

/-- A derived step meets what is demanded of a chosen one. -/
theorem Settings.firstFault?_stepDemand {settings : Settings ℝ} {design : Table ℝ} {step : ℝ}
    (h : settings.firstStep design = .ok step) (later : List (Demand ℝ)) :
    firstFault? (stepDemand step :: later) =
      firstFault? (settings.step.toList.map stepDemand ++ later) := by
  rw [firstStep] at h
  cases hstep : settings.step with
  | some chosen =>
      rw [hstep] at h
      rw [Except.ok.inj h]
      rfl
  | none =>
      rw [hstep] at h
      exact firstFault?_cons_of_met (initialStep_pos h) later

variable [ExactEigensolver]

theorem Settings.refusal?_run (settings : Settings ℝ) {design : Table ℝ} {y : List ℝ}
    {p : Problem ℝ design.width} (hp : Problem.ofData design y = .ok p) :
    refusal? (settings.run design y) = firstFault? (settings.demands design) := by
  have hrows : design.height ≠ 0 := by
    rw [← Problem.size_of_ofData hp]
    exact p.size_pos.ne'
  refine refusal?_bind (settings.refusal?_firstStep hrows) fun step hstep => ?_
  have hparams : refusal? (Solver.ofParams (settings.params step)) =
      firstFault? (penaltyDemand settings.penalty ::
        (settings.step.toList.map stepDemand ++ settings.search.demands)) :=
    (Solver.refusal?_ofParams _).trans (firstFault?_cons_congr (firstFault?_stepDemand hstep _) _)
  rw [← List.append_nil (_ :: _)]
  refine refusal?_bind hparams fun solver _ => ?_
  obtain ⟨⟨run, hrun⟩, paths, hpaths⟩ := solver.exists_run_from_zero hp
  cases settings.scheme with
  | plain => exact congrArg refusal? hrun
  | accelerated =>
      exact congrArg (fun run => refusal? (run >>= fun paths => pure (Paths.estimates <$> paths)))
        hpaths

theorem Estimator.refusal?_fit (model : Estimator ℝ) (x : Table ℝ) (y : List ℝ) :
    refusal? (model.fit x y) = firstFault? (model.demands x y) := by
  refine refusal?_bind (Problem.refusal?_ofData x y) fun p hp => ?_
  obtain ⟨q, hq⟩ := model.settings.exists_ofData_design_iff.2 ⟨p, hp⟩
  rw [← List.append_nil (Settings.demands _ _)]
  exact refusal?_bind (model.settings.refusal?_run hq) fun run _ => rfl

/-- A fit is refused for the first of its demands that is not met: that there is a response to each
row, and a row, and that the responses are labels, from the first on; where the first step is to be
derived, that the design has a column, that the penalty is not negative and that not both are zero;
then again for the penalty, for a step that was chosen, and for the constants of the search. It
succeeds where all are met. With an intercept the design has a column, a derived step is always
accepted, and a solver is never refused the start at zero. -/
theorem Estimator.refused_for_first_unmet (model : Estimator ℝ) (x : Table ℝ) (y : List ℝ) :
    (∀ fault, model.fit x y = .error fault ↔ firstFault? (model.demands x y) = some fault) ∧
    ((∃ fitted, model.fit x y = .ok fitted) ↔ ∀ demand ∈ model.demands x y, demand.met) ∧
    let design := model.settings.design x
    (model.settings.intercept = true → design.width ≠ 0) ∧
    (∀ η, model.settings.step = none → model.settings.firstStep design = .ok η →
      checkStep η = .ok ()) ∧
    ∀ p, Problem.ofData x y = .ok p → ∀ solver : Solver ℝ,
      let origin := List.replicate design.width 0
      (∃ run, solver.descend design y origin = .ok run) ∧
        ∃ run, solver.accelerate design y origin origin = .ok run := by
  have hrefusal := model.refusal?_fit x y
  refine ⟨fun fault => ?_, ?_, fun hflag => ?_, fun η hderived hη => ?_, fun p hp solver => ?_⟩
  · rw [← refusal?_eq_some_iff, hrefusal]
  · rw [← refusal?_eq_none_iff, hrefusal, firstFault?_eq_none_iff]
  · rw [Settings.width_design, if_pos hflag]
    exact Nat.succ_ne_zero _
  · rw [Settings.firstStep, hderived] at hη
    exact checkStep_eq_ok_iff.2 (initialStep_pos hη)
  · obtain ⟨q, hq⟩ := model.settings.exists_ofData_design_iff.2 ⟨p, hp⟩
    exact solver.exists_run_from_zero hq

end

/-- Several faults at once. A response that is no label comes before a table and a penalty that are
both zero, and that before a search without trials, which is the last to be refused. -/
theorem Estimator.refused_for_first_unmet_flat :
    let model : Estimator ℝ := ofSettings
      { Settings.standard with penalty := 0, search := ⟨1 / 4, 1 / 2, 0⟩ }
    let x : Table ℝ := ⟨1, [.replicate 1 0, .replicate 1 0]⟩
    model.fit x [1, 3] = .error (.label 1 3) ∧
      model.fit x [1, -1] = .error (.hyperparameter .noCurvature) ∧
      (model.set (.step 1)).fit x [1, -1] = .error (.hyperparameter .maxTrials) := by
  intro model x
  have hpenalty : (0 : ℝ) ≤ 0 := le_rfl
  have hzero : x.IsZero := by
    intro row hrow
    simp [x] at hrow
    exact hrow
  have hdata : firstFault? (Problem.demands x [1, -1]) = none := by
    rw [← Problem.refusal?_ofData, refusal?_eq_none_iff]
    exact Problem.exists_ofData_iff.2
      ⟨rfl, two_ne_zero, _, Label.readFrom_map_value 0 [.positive, .negative]⟩
  refine ⟨((refused_for_first_unmet model x _).1 _).2 ?_,
    ((refused_for_first_unmet model x _).1 _).2 ?_,
    ((refused_for_first_unmet (model.set (.step 1)) x _).1 _).2 ?_⟩
  · have hone : (1 : ℝ) = -1 ∨ (1 : ℝ) = 1 := Or.inr rfl
    have hthree : ¬((3 : ℝ) = -1 ∨ (3 : ℝ) = 1) := by norm_num
    have hheight : x.height = [1, 3].length := rfl
    have hnonempty : x.height ≠ 0 := two_ne_zero
    refine (firstFault?_cons_of_met hheight _).trans ?_
    refine (firstFault?_cons_of_met hnonempty _).trans ((firstFault?_cons_of_met hone _).trans ?_)
    exact firstFault?_cons_of_not_met hthree _
  · have hwidth : x.width ≠ 0 := one_ne_zero
    have hcurved : ¬¬(x.IsZero ∧ (0 : ℝ) = 0) := not_not.2 ⟨hzero, rfl⟩
    rw [demands, firstFault?_append, hdata, Option.none_or]
    refine (firstFault?_cons_of_met hwidth _).trans ((firstFault?_cons_of_met hpenalty _).trans ?_)
    exact firstFault?_cons_of_not_met hcurved _
  · have hdecrease : (0 : ℝ) < 1 / 4 ∧ (1 / 4 : ℝ) ≤ 0.5 := by norm_num
    have hshrink : (0 : ℝ) < 1 / 2 ∧ (1 / 2 : ℝ) < 1 := by norm_num
    have hstep : (0 : ℝ) < 1 := one_pos
    have htrials : ¬0 ≠ 0 := not_not.2 rfl
    rw [demands, firstFault?_append, hdata, Option.none_or]
    refine (firstFault?_cons_of_met hpenalty _).trans ((firstFault?_cons_of_met hstep _).trans ?_)
    refine (firstFault?_cons_of_met hdecrease _).trans ?_
    exact (firstFault?_cons_of_met hshrink _).trans (firstFault?_cons_of_not_met htrials _)

end RidgeLogistic
