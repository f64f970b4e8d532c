import RidgeLogistic.Proofs.Extended
import RidgeLogistic.Proofs.Resampling

/-!
# Where the exponential overflows

The loss of a sample far on the wrong side is the logarithm of an exponential that is no number any
more, so that the objective is infinite there. The gradient looks at the same exponential and takes
the limit one for its weight. So it never sees an infinity, and what it computes from real data is a
real vector, whatever the exponential is and however the samples that overflow are mixed with the
others (`Problem.gradient_lift`).

Every weight is in the unit interval, the limit among them, and a label is a sign. The pull of the
data on a coefficient is therefore at most the sum of the absolute values of its column, and in the
gradient their mean (`Problem.abs_gradientWith_sub_le`).
-/

namespace RidgeLogistic

variable {d : Nat} {exp : ℝ → ENNReal}

/-! ## Weights and losses -/

/-- The weight that belongs to an exponential, which may have overflowed. -/
noncomputable def overflowWeight (e : ENNReal) : ℝ :=
  if e = ⊤ then 1 else e.toReal / (1 + e.toReal)

theorem overflowWeight_mem_Icc (e : ENNReal) : overflowWeight e ∈ Set.Icc (0 : ℝ) 1 := by
  have he : 0 ≤ e.toReal := ENNReal.toReal_nonneg
  rw [overflowWeight]
  split
  · exact ⟨zero_le_one, le_rfl⟩
  · exact ⟨by positivity, (div_le_one (by positivity)).2 (by linarith)⟩

namespace Extended

theorem exp_finite_of_top {m : ℝ} (h : exp m = ⊤) :
    Scalar.exp (finite m : Extended exp) = infinite false :=
  if_pos h

theorem exp_finite_of_ne_top {m : ℝ} (h : exp m ≠ ⊤) :
    Scalar.exp (finite m : Extended exp) = finite (exp m).toReal :=
  if_neg h

/-- The guard is what keeps the quotient of two infinities away. -/
theorem logisticWeight_finite (m : ℝ) :
    logisticWeight (finite m : Extended exp) = finite (overflowWeight (exp m)) := by
  by_cases h : exp m = ⊤
  · rw [logisticWeight, exp_finite_of_top h, overflowWeight, if_pos h]
    rfl
  · have hexp : 0 ≤ (exp m).toReal := ENNReal.toReal_nonneg
    rw [logisticWeight, exp_finite_of_ne_top h, overflowWeight, if_neg h,
      finite_div _ (by positivity : 1 + (exp m).toReal ≠ 0)]
    rfl

theorem logisticLoss_of_top {m : ℝ} (h : exp m = ⊤) :
    logisticLoss (finite m : Extended exp) = infinite false := by
  rw [logisticLoss, exp_finite_of_top h]
  rfl

theorem logisticLoss_of_ne_top {m : ℝ} (h : exp m ≠ ⊤) :
    logisticLoss (finite m : Extended exp) = finite (Real.log (1 + (exp m).toReal)) := by
  have hexp : 0 ≤ (exp m).toReal := ENNReal.toReal_nonneg
  rw [logisticLoss, exp_finite_of_ne_top h]
  exact if_pos (by positivity)

/-- A number or positive infinity, as every loss is. -/
def BoundedBelow (a : Extended exp) : Prop :=
  a = infinite false ∨ ∃ r, a = finite r

namespace BoundedBelow

variable {a b : Extended exp}

theorem add_infinite (ha : a.BoundedBelow) : a + infinite false = infinite false := by
  rcases ha with rfl | ⟨r, rfl⟩
  · rfl
  · rfl

theorem infinite_add (ha : a.BoundedBelow) : infinite false + a = infinite false := by
  rcases ha with rfl | ⟨r, rfl⟩
  · rfl
  · rfl

theorem add (ha : a.BoundedBelow) (hb : b.BoundedBelow) : (a + b).BoundedBelow := by
  rcases hb with rfl | ⟨s, rfl⟩
  · exact Or.inl ha.add_infinite
  · rcases ha with rfl | ⟨r, rfl⟩
    · exact Or.inl rfl
    · exact Or.inr ⟨r + s, rfl⟩

end BoundedBelow

/-- An infinity in a sum is not lost again. -/
theorem foldl_add_eq_infinite {xs : List (Extended exp)} (hxs : ∀ a ∈ xs, a.BoundedBelow)
    {sum : Extended exp} (hsum : sum.BoundedBelow) (h : infinite false ∈ sum :: xs) :
    xs.foldl (· + ·) sum = infinite false := by
  induction xs generalizing sum with
  | nil => exact (List.mem_singleton.1 h).symm
  | cons a xs ih =>
      obtain ⟨ha, hxs⟩ := List.forall_mem_cons.1 hxs
      refine ih hxs (hsum.add ha) ?_
      show infinite false ∈ (sum + a) :: xs
      rcases List.mem_cons.1 h with rfl | h
      · rw [ha.infinite_add]
        exact List.mem_cons_self
      · rcases List.mem_cons.1 h with rfl | h
        · rw [hsum.add_infinite]
          exact List.mem_cons_self
        · exact List.mem_cons_of_mem _ h

theorem total_eq_infinite {xs : List (Extended exp)} (hxs : ∀ a ∈ xs, a.BoundedBelow)
    (h : infinite false ∈ xs) : total xs = infinite false :=
  foldl_add_eq_infinite hxs (Or.inr ⟨0, rfl⟩) (List.mem_cons_of_mem _ h)

end Extended

/-! ## Problems -/

theorem Label.abs_value (label : Label) : |(label.value : ℝ)| = 1 := by
  cases label with
  | positive => exact abs_one
  | negative => exact (abs_neg 1).trans abs_one

theorem abs_sum_map_le {γ : Type} {f g : γ → ℝ} {cs : List γ} (h : ∀ c ∈ cs, |f c| ≤ g c) :
    |(cs.map f).sum| ≤ (cs.map g).sum := by
  induction cs with
  | nil => simp
  | cons c cs ih =>
      obtain ⟨hc, hcs⟩ := List.forall_mem_cons.1 h
      rw [List.map_cons, List.map_cons, List.sum_cons, List.sum_cons]
      exact (abs_add_le _ _).trans (add_le_add hc (ih hcs))

theorem Sample.margin_lift (s : Sample ℝ d) (β : Vec ℝ d) :
    (s.lift exp).margin (β.lift exp) = Extended.finite (s.margin β) := by
  rw [margin, lift, Label.value_lift, Vec.lift_dot]
  rfl

namespace Problem

/-- The gradient with other weights for the margins. -/
noncomputable def gradientWith (weight : ℝ → ℝ) (p : Problem ℝ d) (penalty : ℝ) (β : Vec ℝ d) :
    Vec ℝ d :=
  p.pullWith weight β * (-1 / (p.size : ℝ)) + β * (2.0 * penalty)

variable (p : Problem ℝ d) (penalty : ℝ) (β : Vec ℝ d)

theorem size_lift (exp : ℝ → ENNReal) : (p.lift exp).size = p.size :=
  List.length_map _

/-- One sample adds a real vector to what is pulled so far. -/
theorem pull_lift_step (sum : Vec ℝ d) (s : Sample ℝ d) :
    sum.lift exp + (s.lift exp).features *
        ((s.lift exp).label.value * logisticWeight ((s.lift exp).margin (β.lift exp))) =
      (sum + s.features * (s.label.value * overflowWeight (exp (s.margin β)))).lift exp := by
  rw [Vec.lift_add, Vec.lift_mul, Extended.finite_mul, Sample.margin_lift,
    Extended.logisticWeight_finite, ← Label.value_lift]
  rfl

theorem pull_lift :
    (p.lift exp).pull (β.lift exp) = (p.pullWith (overflowWeight ∘ exp) β).lift exp := by
  rw [pull, lift, List.foldl_map, ← Vec.lift_zero]
  exact List.foldl_hom (Vec.lift exp) fun sum s => pull_lift_step β sum s

theorem gradient_lift :
    (p.lift exp).gradient (.finite penalty) (β.lift exp) =
      (p.gradientWith (overflowWeight ∘ exp) penalty β).lift exp := by
  have hsize : (p.size : ℝ) ≠ 0 := p.size_pos_real.ne'
  rw [gradientWith, Vec.lift_add, Vec.lift_mul, Vec.lift_mul, ← pull_lift,
    Extended.finite_div _ hsize, gradient, size_lift]
  rfl

theorem get_gradientWith (weight : ℝ → ℝ) (j : Fin d) :
    (p.gradientWith weight penalty β).get j =
      -(1 / p.size) * (p.samples.map fun s =>
        s.label.value * s.features.get j * weight (s.margin β)).sum +
      2 * penalty * β.get j := by
  have htwo : (2.0 : ℝ) = 2 := by norm_num
  have hpull : (p.pullWith weight β).get j = (p.samples.map fun s =>
      s.label.value * s.features.get j * weight (s.margin β)).sum := by
    rw [get_pullWith]
    exact congrArg List.sum (List.map_congr_left fun s _ => by ring)
  rw [gradientWith, Vec.get_add, Vec.get_mul, Vec.get_mul, hpull, htwo]
  ring

variable {p penalty β}

/-- Weights of at most one let a sample pull by no more than its feature. -/
theorem abs_gradientWith_sub_le {weight : ℝ → ℝ} (hweight : ∀ m, weight m ∈ Set.Icc (0 : ℝ) 1)
    (j : Fin d) :
    |(p.gradientWith weight penalty β).get j - 2 * penalty * β.get j| ≤
      (p.samples.map fun s => |s.features.get j|).sum / p.size := by
  have hpull : |(p.samples.map fun s =>
      s.label.value * s.features.get j * weight (s.margin β)).sum| ≤
      (p.samples.map fun s => |s.features.get j|).sum := by
    refine abs_sum_map_le fun s _ => ?_
    obtain ⟨hnonneg, hle⟩ := hweight (s.margin β)
    rw [abs_mul, abs_mul, Label.abs_value, one_mul, abs_of_nonneg hnonneg]
    exact mul_le_of_le_one_right (abs_nonneg _) hle
  have hsize := p.size_pos_real
  rw [get_gradientWith, add_sub_cancel_right, abs_mul, abs_neg, abs_of_pos (one_div_pos.2 hsize),
    one_div_mul_eq_div]
  exact div_le_div_of_nonneg_right hpull hsize.le

theorem losses_lift (exp : ℝ → ENNReal) (p : Problem ℝ d) (β : Vec ℝ d) :
    ((p.lift exp).samples.map fun s => logisticLoss (s.margin (β.lift exp))) =
      p.samples.map fun s => logisticLoss (.finite (s.margin β) : Extended exp) := by
  rw [lift, List.map_map]
  refine List.map_congr_left fun s _ => ?_
  rw [Function.comp_apply, Sample.margin_lift]

theorem objective_lift_of_top (h : ∃ s ∈ p.samples, exp (s.margin β) = ⊤) :
    (p.lift exp).objective (.finite penalty) (β.lift exp) = .infinite false := by
  have hlosses : total (p.samples.map fun s =>
      logisticLoss (.finite (s.margin β) : Extended exp)) = .infinite false := by
    refine Extended.total_eq_infinite ?_ ?_
    · rw [List.forall_mem_map]
      intro s _
      by_cases htop : exp (s.margin β) = ⊤
      · exact Or.inl (Extended.logisticLoss_of_top htop)
      · exact Or.inr ⟨_, Extended.logisticLoss_of_ne_top htop⟩
    · obtain ⟨s, hs, htop⟩ := h
      exact List.mem_map.2 ⟨s, hs, Extended.logisticLoss_of_top htop⟩
  have hsize : ¬(p.size : ℝ) < 0 := p.size_pos_real.le.not_gt
  rw [objective, losses_lift, hlosses, size_lift, Vec.lift_dot]
  show Extended.infinite (false != decide ((p.size : ℝ) < 0)) + _ = _
  rw [decide_eq_false hsize]
  rfl

theorem objective_lift_of_ne_top (h : ∀ s ∈ p.samples, exp (s.margin β) ≠ ⊤) :
    (p.lift exp).objective (.finite penalty) (β.lift exp) =
      .finite ((p.samples.map fun s => Real.log (1 + (exp (s.margin β)).toReal)).sum / p.size +
        penalty * β.dot β) := by
  have hlosses : (p.samples.map fun s =>
      logisticLoss (.finite (s.margin β) : Extended exp)) =
      (p.samples.map fun s => Real.log (1 + (exp (s.margin β)).toReal)).map .finite := by
    rw [List.map_map]
    exact List.map_congr_left fun s hs => Extended.logisticLoss_of_ne_top (h s hs)
  rw [objective, losses_lift, hlosses, Extended.total_map_finite, size_lift, Vec.lift_dot,
    Extended.finite_add, Extended.finite_div _ p.size_pos_real.ne']
  rfl

end Problem

/-- Whatever the exponential is and wherever it overflows, the gradient of real data at a real
point is a real vector. It is made of weights in the unit interval, and no entry of it is further
from that of the penalty than the mean absolute value of the column. The objective is infinite as
soon as one sample overflows. Where none does it is a number, and the gradient is given by the
formula without a guard. -/
theorem gradient_bounded_under_overflow (exp : ℝ → ENNReal) {x : Table ℝ} {y : List ℝ}
    {p : Problem ℝ x.width} (hp : Problem.ofData x y = .ok p) {penalty : ℝ} (hpen : 0 ≤ penalty)
    (β : Vec ℝ x.width) :
    let data := x.rows.zip y
    let e : Vec ℝ x.width × ℝ → ENNReal := fun pair => exp (-(pair.2 * pair.1.dot β))
    let labels : List (Extended exp) := y.map .finite
    let point : List (Extended exp) := β.toList.map .finite
    ∃ (q : Problem (Extended exp) x.width) (g : Vec ℝ x.width),
      Problem.ofData (x.lift exp) labels = .ok q ∧
      (∀ s ∈ q.samples, ∃ w : ℝ,
        logisticWeight (s.margin (β.lift exp)) = .finite w ∧ 0 ≤ w ∧ w ≤ 1) ∧
      gradient (x.lift exp) labels point (.finite penalty) = .ok (g.lift exp) ∧
      (∀ j, g.get j =
        -(1 / x.height) * (data.map fun pair =>
          pair.2 * pair.1.get j * overflowWeight (e pair)).sum + 2 * penalty * β.get j) ∧
      (∀ j, |g.get j - 2 * penalty * β.get j| ≤
        (x.rows.map fun row => |row.get j|).sum / x.height) ∧
      ((∃ pair ∈ data, e pair = ⊤) →
        objective (x.lift exp) labels point (.finite penalty) = .ok (.infinite false)) ∧
      ((∀ pair ∈ data, e pair ≠ ⊤) →
        (∃ value, objective (x.lift exp) labels point (.finite penalty) = .ok (.finite value)) ∧
        ∀ j, g.get j =
          -(1 / x.height) * (data.map fun pair =>
            pair.2 * pair.1.get j * ((e pair).toReal / (1 + (e pair).toReal))).sum +
          2 * penalty * β.get j) := by
  intro data e labels point
  have hq : Problem.ofData (x.lift exp) labels = .ok (p.lift exp) := Problem.ofData_lift hp
  have hcheck : checkPenalty (.finite penalty : Extended exp) = .ok () := if_pos ⟨hpen, rfl⟩
  have hzip : data = p.samples.map Sample.datum := Problem.zip_of_ofData hp
  have hformula : ∀ j, (p.gradientWith (overflowWeight ∘ exp) penalty β).get j =
      -(1 / x.height) * (data.map fun pair =>
        pair.2 * pair.1.get j * overflowWeight (e pair)).sum + 2 * penalty * β.get j := by
    intro j
    rw [Problem.get_gradientWith, hzip, List.map_map, ← Problem.size_of_ofData hp]
    rfl
  refine ⟨p.lift exp, p.gradientWith (overflowWeight ∘ exp) penalty β, hq, ?_, ?_, hformula, ?_,
    ?_, ?_⟩
  · intro s hs
    obtain ⟨s, -, rfl⟩ := List.mem_map.1 hs
    refine ⟨overflowWeight (exp (s.margin β)), ?_, overflowWeight_mem_Icc _⟩
    rw [Sample.margin_lift, Extended.logisticWeight_finite]
  · exact (gradient_eq hq hcheck (β.lift exp)).trans
      (congrArg Except.ok (p.gradient_lift penalty β))
  · intro j
    rw [← Problem.features_of_ofData hp, List.map_map, ← Problem.size_of_ofData hp]
    exact Problem.abs_gradientWith_sub_le (fun m => overflowWeight_mem_Icc (exp m)) j
  · intro htop
    rw [hzip] at htop
    obtain ⟨_, hpair, htop⟩ := htop
    obtain ⟨s, hs, rfl⟩ := List.mem_map.1 hpair
    exact (objective_eq hq hcheck (β.lift exp)).trans
      (congrArg Except.ok (Problem.objective_lift_of_top ⟨s, hs, htop⟩))
  · intro hfinite
    have hsamples := hfinite
    rw [hzip, List.forall_mem_map] at hsamples
    refine ⟨⟨_, (objective_eq hq hcheck (β.lift exp)).trans
      (congrArg Except.ok (Problem.objective_lift_of_ne_top hsamples))⟩, fun j => ?_⟩
    have hweights : (data.map fun pair => pair.2 * pair.1.get j * overflowWeight (e pair)) =
        data.map fun pair => pair.2 * pair.1.get j * ((e pair).toReal / (1 + (e pair).toReal)) :=
      List.map_congr_left fun pair hpair => by rw [overflowWeight, if_neg (hfinite pair hpair)]
    rw [hformula, hweights]

/-- An exponential that overflows above seven hundred and nine, at a margin of a thousand. -/
theorem gradient_bounded_under_overflow_single :
    let exp : ℝ → ENNReal := fun m => if 709 < m then ⊤ else ENNReal.ofReal (Real.exp m)
    let x : Table ℝ := ⟨1, [.replicate 1 1]⟩
    let labels : List (Extended exp) := [.finite (-1)]
    (0 : ℝ) ≤ 0 ∧ (∃ p, Problem.ofData x [-1] = .ok p) ∧
      objective (x.lift exp) labels [.finite 1000] (.finite 0) = .ok (.infinite false) ∧
      gradient (x.lift exp) labels [.finite 1000] (.finite 0) =
        .ok ((.replicate 1 1 : Vec ℝ 1).lift exp) := by
  intro exp x labels
  let p : Problem ℝ 1 := ⟨[⟨.replicate 1 1, .negative⟩], List.cons_ne_nil _ _⟩
  have hp : Problem.ofData x [-1] = .ok p := p.ofData_table
  have hdot : (.replicate 1 1 : Vec ℝ 1).dot (.replicate 1 1000) = 1000 := by
    simp [Vec.dot_eq_sum]
  have htop : exp 1000 = ⊤ := if_pos (by norm_num)
  obtain ⟨-, g, -, -, hgrad, hformula, -, hobjective, -⟩ :=
    gradient_bounded_under_overflow exp hp le_rfl (.replicate 1 1000)
  obtain rfl : g = .replicate 1 1 := by
    refine Vec.ext_get fun j => ?_
    rw [hformula]
    simp [x, Table.height, hdot, htop, overflowWeight]
  refine ⟨le_rfl, ⟨p, hp⟩, hobjective ⟨(.replicate 1 1, -1), ?_⟩, hgrad⟩
  simp [x, hdot, htop]

end RidgeLogistic
