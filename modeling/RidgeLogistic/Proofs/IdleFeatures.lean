import RidgeLogistic.Proofs.Convexity
import RidgeLogistic.Proofs.Fitted

/-!
# Features without data

A feature that is zero in every sample has no say in the loss, and the penalty alone would
never move its coefficient away from zero. Over exact arithmetic it does not move at all: the
gradient at a point with a zero there has a zero there, and so has what either scheme makes
of such points (`Course.get_eq_zero`). A fit starts at zero, so it leaves zero at every such
feature (`Estimator.exists_idle_of_fit`), whatever the settings are.
-/

namespace RidgeLogistic

variable {d : Nat}

namespace Problem

/-- A feature that is zero in every sample. -/
def Idle (p : Problem ℝ d) (j : Fin d) : Prop :=
  ∀ s ∈ p.samples, s.features.get j = 0

variable {p : Problem ℝ d} {j : Fin d}

theorem Idle.get_pull (h : p.Idle j) (β : Vec ℝ d) : (p.pull β).get j = 0 := by
  rw [Problem.get_pull]
  refine List.sum_eq_zero fun term hterm => ?_
  obtain ⟨s, hs, rfl⟩ := List.mem_map.1 hterm
  rw [h s hs, zero_mul]

theorem Idle.get_gradient (h : p.Idle j) (penalty : ℝ) {β : Vec ℝ d} (hβ : β.get j = 0) :
    (p.gradient penalty β).get j = 0 := by
  rw [gradient_eq_add, Vec.get_add, Vec.get_mul, Vec.get_mul, h.get_pull, hβ, zero_mul,
    zero_mul, add_zero]

theorem idle_of_ofData {x : Table ℝ} {y : List ℝ} {p : Problem ℝ x.width}
    (hp : Problem.ofData x y = .ok p) {j : Fin x.width} (h : ∀ row ∈ x.rows, row.get j = 0) :
    p.Idle j := by
  intro s hs
  refine h _ ?_
  rw [← features_of_ofData hp]
  exact List.mem_map_of_mem hs

end Problem

/-! ## Runs -/

theorem Scheme.get_origin (scheme : Scheme) (k : Nat) {estimate reached : Vec ℝ d} {j : Fin d}
    (hestimate : estimate.get j = 0) (hreached : reached.get j = 0) :
    (scheme.origin k estimate reached).get j = 0 := by
  cases scheme with
  | plain => exact hreached
  | accelerated =>
      rw [origin_accelerated, Vec.get_add, Vec.get_mul, Vec.get_sub, hestimate, hreached, sub_zero,
        zero_mul, add_zero]

/-- At an idle feature a run stays zero where it starts from zero, at its estimates and at the
points between them. -/
theorem Course.get_eq_zero (c : Course ℝ d) {j : Fin d} (h : c.problem.Idle j)
    (hestimate : c.estimate₀.get j = 0) (horigin : c.origin₀.get j = 0) (k : Nat) :
    (c.estimate k).get j = 0 ∧ (c.origin k).get j = 0 := by
  induction k with
  | zero => exact ⟨hestimate, horigin⟩
  | succ k ih =>
      have hgrad : (c.gradientAt (c.origin k)).get j = 0 := h.get_gradient _ ih.2
      have hreached : (c.estimate (k + 1)).get j = 0 := by
        rw [c.estimate_succ, Vec.get_sub, Vec.get_mul, ih.2, hgrad, zero_mul, sub_zero]
      refine ⟨hreached, ?_⟩
      rw [c.origin_succ]
      exact c.scheme.get_origin k ih.1 hreached

/-! ## Fits -/

/-- Where a feature of a table stands on the design: one place further where an intercept is
fitted. -/
theorem Settings.exists_design_feature (settings : Settings ℝ) (x : Table ℝ)
    (j : Fin x.width) :
    ∃ i : Fin (settings.design x).width,
      i.val = (if settings.intercept then j.val + 1 else j.val) ∧
      ∀ row ∈ (settings.design x).rows, ∃ r ∈ x.rows, row.get i = r.get j := by
  cases hflag : settings.intercept with
  | false =>
      have hdesign : settings.design x = x := if_neg (Bool.eq_false_iff.1 hflag)
      rw [hdesign]
      exact ⟨j, rfl, fun row hrow => ⟨row, hrow, rfl⟩⟩
  | true =>
      have hdesign : settings.design x = x.withOnes := if_pos hflag
      rw [hdesign]
      refine ⟨j.succ, rfl, ?_⟩
      intro row hrow
      obtain ⟨r, hr, rfl⟩ := List.mem_map.1 hrow
      exact ⟨r, hr, rfl⟩

theorem Vec.get_eq_get {e : Nat} {u : Vec ℝ d} {v : Vec ℝ e} {i : Fin d} {j : Fin e}
    (h : u.toList[i.val]? = v.toList[j.val]?) : u.get i = v.get j := by
  have hi : i.val < u.toList.length := by rw [u.length_toList]; exact i.isLt
  have hj : j.val < v.toList.length := by rw [v.length_toList]; exact j.isLt
  rw [List.getElem?_eq_getElem hi, List.getElem?_eq_getElem hj] at h
  exact Option.some.inj h

/-- A fit leaves the coefficient zero at each feature that is zero in all rows. -/
theorem Estimator.exists_idle_of_fit [Eigensolver ℝ] {model : Estimator ℝ} {x : Table ℝ}
    {y : List ℝ} {fitted : Logged ℝ (Estimator ℝ)} (h : model.fit x y = .ok fitted) :
    ∃ w : Vec ℝ x.width, fitted.value.coefficients = some w.toList ∧
      ∀ j, (∀ row ∈ x.rows, row.get j = 0) → w.get j = 0 := by
  obtain ⟨run, hrun, hvalue⟩ := value_of_fit h
  obtain ⟨p, step, hp, -, -, hcourse⟩ := Settings.exists_course_of_run hrun
  obtain ⟨w, b, hkeep, hlast, -⟩ := model.exists_keep_eq run.value
  refine ⟨w, by rw [hvalue, hkeep], ?_⟩
  intro j hzero
  obtain ⟨i, hi, hrows⟩ := model.settings.exists_design_feature x j
  have hidle : p.Idle i := by
    refine Problem.idle_of_ofData hp fun row hrow => ?_
    obtain ⟨r, hr, hget⟩ := hrows row hrow
    rw [hget, hzero r hr]
  have hend : run.value.last.get i = 0 := by
    rw [hcourse]
    show (Trajectory.last (.along _ _)).get i = 0
    rw [Trajectory.last_along]
    exact ((model.settings.course p step).get_eq_zero hidle (Vec.get_zero i)
      (Vec.get_zero i) _).1
  rw [← hend]
  refine Vec.get_eq_get ?_
  rw [hlast, hi]
  cases model.settings.intercept <;> rfl

end RidgeLogistic
