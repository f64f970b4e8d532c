import RidgeLogistic.Proofs.HeldOut
import RidgeLogistic.Proofs.Resampling
import RidgeLogistic.Proofs.Surrogate

/-!
# Batches put together

Data often comes in batches, and what is computed from all of it should follow from what is computed
from each batch. Two tables of one width, with a response to each row, are put one after the other
here. What is told row by row is then told one after the other. What is a mean over the samples is
the mean of both weighted by their sizes (`Problem.pooled_mean`): the misclassification, and the
objective and the gradient without the penalty, which is no mean and counts once.

Every call from outside first judges what it is given, so each statement is one about three
outcomes: there is an answer for the whole exactly if there is one for both parts, and it is made of
theirs (`Combines`). That goes through a call step by step. The data is the one step where the three
differ, and there a problem for the whole is the two problems of the parts appended
(`Problem.ofData_append`); the width and the penalty are the same in all three.

A response too many in one part and one too few in the other would cancel out in the whole. So a
batch has as many responses as rows (`Batch`), and a row, without which there is no mean.
-/

namespace RidgeLogistic

/-! ## Outcomes for a whole and its parts -/

section

variable {ε κ : Type}

/-- There is an answer for the whole exactly if there is one for both parts, and it is made of
theirs. -/
structure Combines (made : κ → κ → κ → Prop) (first second whole : Except ε κ) : Prop where
  exists_ok_iff : (∃ a, whole = .ok a) ↔ (∃ a, first = .ok a) ∧ ∃ a, second = .ok a
  made_of : ∀ {a₁ a₂ a}, first = .ok a₁ → second = .ok a₂ → whole = .ok a → made a₁ a₂ a

namespace Combines

variable {made : κ → κ → κ → Prop}

theorem of_ok {a₁ a₂ a : κ} (h : made a₁ a₂ a) :
    Combines made (.ok a₁ : Except ε κ) (.ok a₂) (.ok a) where
  exists_ok_iff := iff_of_true ⟨a, rfl⟩ ⟨⟨a₁, rfl⟩, a₂, rfl⟩
  made_of := by
    rintro _ _ _ ⟨⟩ ⟨⟩ ⟨⟩
    exact h

/-- The whole is refused, and so is a part. -/
theorem of_error {first second : Except ε κ} {fault : ε}
    (h : ¬((∃ a, first = .ok a) ∧ ∃ a, second = .ok a)) :
    Combines made first second (.error fault) where
  exists_ok_iff := iff_of_false (fun ⟨_, ha⟩ => by injection ha) h
  made_of := fun _ _ ha => by injection ha

/-- All three are refused for the same reason. -/
theorem error (fault : ε) : Combines made (.error fault) (.error fault) (.error fault) :=
  of_error fun ⟨⟨_, ha⟩, _⟩ => by injection ha

/-- What all three go through alike does not matter. -/
theorem bind {β : Type} (call : Except ε β) {first second whole : β → Except ε κ}
    (h : ∀ b, call = .ok b → Combines made (first b) (second b) (whole b)) :
    Combines made (call >>= first) (call >>= second) (call >>= whole) := by
  cases call with
  | error fault => exact error fault
  | ok b => exact h b rfl

theorem of_rowByRow {β γ : Type} {compose : List γ → κ} {f : List β → Except ε κ}
    (hf : RowByRow compose f)
    (hmade : ∀ answers answers', made (compose answers) (compose answers')
      (compose (answers ++ answers')))
    (rows rows' : List β) : Combines made (f rows) (f rows') (f (rows ++ rows')) := by
  rcases hf with ⟨fault, hf⟩ | ⟨g, hf⟩
  · rw [hf, hf, hf]
    exact error fault
  · rw [hf, hf, hf, List.map_append]
    exact of_ok (hmade _ _)

end Combines

end

/-- A figure of the whole is the mean of those of the parts, weighted by their sizes. -/
def Pooled (n₁ n₂ : Nat) (a₁ a₂ a : ℝ) : Prop :=
  ((n₁ : ℝ) + n₂) * a = n₁ * a₁ + n₂ * a₂

/-- A table of the given width has the rows of one and then those of another. -/
def Table.Stacked {α : Type} (d : Nat) (x₁ x₂ x : Table α) : Prop :=
  ∃ rows₁ rows₂ : List (Vec α d),
    x₁ = ⟨d, rows₁⟩ ∧ x₂ = ⟨d, rows₂⟩ ∧ x = ⟨d, rows₁ ++ rows₂⟩

/-! ## Problems -/

variable {d : Nat}

namespace Problem

/-- The samples of one problem and then those of another. -/
def append {α : Type} (p₁ p₂ : Problem α d) : Problem α d where
  samples := p₁.samples ++ p₂.samples
  samples_ne_nil := List.append_ne_nil_of_left_ne_nil p₁.samples_ne_nil _

theorem samples_append {α : Type} (p₁ p₂ : Problem α d) :
    (p₁.append p₂).samples = p₁.samples ++ p₂.samples := rfl

variable (p₁ p₂ : Problem ℝ d)

/-- A mean over the samples of the whole, whose total is that of the one part and that of the
other. -/
theorem pooled_div (a₁ a₂ : ℝ) :
    Pooled p₁.size p₂.size (a₁ / p₁.size) (a₂ / p₂.size) ((a₁ + a₂) / (p₁.append p₂).size) := by
  have hsize : ((p₁.append p₂).size : ℝ) = p₁.size + p₂.size := by
    rw [size, samples_append, List.length_append, Nat.cast_add, size, size]
  have hne : (p₁.size : ℝ) + p₂.size ≠ 0 := (add_pos p₁.size_pos_real p₂.size_pos_real).ne'
  rw [Pooled, hsize, mul_div_cancel₀ _ hne, mul_div_cancel₀ _ p₁.size_pos_real.ne',
    mul_div_cancel₀ _ p₂.size_pos_real.ne']

theorem pooled_misclassification (β : Vec ℝ d) :
    Pooled p₁.size p₂.size (p₁.misclassification β) (p₂.misclassification β)
      ((p₁.append p₂).misclassification β) := by
  simp only [misclassification_eq_div, samples_append, List.countP_append, Nat.cast_add]
  exact pooled_div p₁ p₂ _ _

theorem pooled_objective (penalty : ℝ) (β : Vec ℝ d) :
    Pooled p₁.size p₂.size (p₁.objective penalty β - penalty * β.dot β)
      (p₂.objective penalty β - penalty * β.dot β)
      ((p₁.append p₂).objective penalty β - penalty * β.dot β) := by
  simp only [objective_eq_sum, add_sub_cancel_right, samples_append, List.map_append,
    List.sum_append]
  exact pooled_div p₁ p₂ _ _

theorem pooled_gradient (penalty : ℝ) (β : Vec ℝ d) (j : Fin d) :
    Pooled p₁.size p₂.size ((p₁.gradient penalty β).get j - 2 * penalty * β.get j)
      ((p₂.gradient penalty β).get j - 2 * penalty * β.get j)
      (((p₁.append p₂).gradient penalty β).get j - 2 * penalty * β.get j) := by
  have hdata : ∀ p : Problem ℝ d, (p.gradient penalty β).get j - 2 * penalty * β.get j =
      -(p.pull β).get j / p.size := by
    intro p
    rw [gradient_eq_add, Vec.get_add, Vec.get_mul, Vec.get_mul]
    ring
  simp only [hdata, get_pull, samples_append, List.map_append, List.sum_append, neg_add]
  exact pooled_div p₁ p₂ _ _

end Problem

/-! ## Data -/

/-- A response to each row, and a row at least. -/
structure Batch {α : Type} (rows : List (Vec α d)) (y : List α) : Prop where
  length_eq : rows.length = y.length
  ne_nil : rows ≠ []

section

variable {rows rows₁ rows₂ : List (Vec ℝ d)} {y y₁ y₂ : List ℝ}

theorem Problem.ofData_append {p₁ p₂ : Problem ℝ d}
    (hp₁ : ofData ⟨d, rows₁⟩ y₁ = .ok p₁) (hp₂ : ofData ⟨d, rows₂⟩ y₂ = .ok p₂) :
    ofData ⟨d, rows₁ ++ rows₂⟩ (y₁ ++ y₂) = .ok (p₁.append p₂) := by
  have hrows : (p₁.append p₂).samples.map Sample.features = rows₁ ++ rows₂ := by
    rw [samples_append, List.map_append]
    exact congrArg₂ (· ++ ·) (features_of_ofData hp₁) (features_of_ofData hp₂)
  have hresponses : (p₁.append p₂).responses = y₁ ++ y₂ := by
    rw [responses, samples_append, List.map_append, List.map_append]
    exact congrArg₂ (· ++ ·) (responses_of_ofData hp₁) (responses_of_ofData hp₂)
  rw [← hrows, ← hresponses]
  exact (p₁.append p₂).ofData_table

namespace Batch

theorem map {e : Nat} (h : Batch rows y) (f : Vec ℝ d → Vec ℝ e) : Batch (rows.map f) y where
  length_eq := (List.length_map f).trans h.length_eq
  ne_nil := List.map_eq_nil_iff.not.2 h.ne_nil

theorem append (h₁ : Batch rows₁ y₁) (h₂ : Batch rows₂ y₂) :
    Batch (rows₁ ++ rows₂) (y₁ ++ y₂) where
  length_eq := by rw [List.length_append, List.length_append, h₁.length_eq, h₂.length_eq]
  ne_nil := List.append_ne_nil_of_left_ne_nil h₁.ne_nil _

/-- Of a batch only the responses are left to be judged. -/
theorem exists_ofData_iff (h : Batch rows y) :
    (∃ p, Problem.ofData ⟨d, rows⟩ y = .ok p) ↔ ∀ v ∈ y, Label.IsSign v := by
  rw [Problem.exists_ofData_iff, Label.exists_readSigns_iff]
  exact ⟨fun hdata => hdata.2.2,
    fun hy => ⟨h.length_eq, List.length_eq_zero_iff.not.2 h.ne_nil, hy⟩⟩

/-- Labels, coefficients of the width of the rows and a penalty that is not negative are enough
for there to be an answer. -/
theorem exists_answers (h : Batch rows y) (hy : ∀ v ∈ y, Label.IsSign v) (w : Vec ℝ d) :
    let x : Table ℝ := ⟨d, rows⟩
    (∃ a, misclassification x y w.toList = .ok a) ∧
    (∀ penalty, 0 ≤ penalty →
      (∃ a, objective x y w.toList penalty = .ok a) ∧
      ∃ g, gradient x y w.toList penalty = .ok g) ∧
    ∀ model : Estimator ℝ, model.coefficients = some w.toList →
      ∃ a, model.errorRate x y = .ok a := by
  intro x
  obtain ⟨p, hp⟩ := h.exists_ofData_iff.2 hy
  refine ⟨⟨_, misclassification_eq hp w⟩, fun penalty hpen => ?_, fun model hw => ?_⟩
  · have hcheck := checkPenalty_eq_ok_iff.2 hpen
    exact ⟨⟨_, objective_eq hp hcheck w⟩, _, gradient_eq hp hcheck w⟩
  · obtain ⟨q, hq⟩ := model.settings.exists_ofData_design_iff.2 ⟨p, hp⟩
    obtain ⟨β, hβ⟩ := Estimator.exists_onDesign (x := x) hw
    refine ⟨q.misclassification β, ?_⟩
    rw [Estimator.errorRate, hβ]
    exact misclassification_eq hq β

variable (h₁ : Batch rows₁ y₁) (h₂ : Batch rows₂ y₂)

include h₁ h₂

/-- A call that goes on from the problem that its data poses. -/
theorem combines_bind {κ : Type} {made : κ → κ → κ → Prop}
    {first second whole : Problem ℝ d → Except (Error ℝ) κ}
    (h : ∀ p₁ p₂, p₁.size = rows₁.length → p₂.size = rows₂.length →
      Combines made (first p₁) (second p₂) (whole (p₁.append p₂))) :
    Combines made (Problem.ofData ⟨d, rows₁⟩ y₁ >>= first)
      (Problem.ofData ⟨d, rows₂⟩ y₂ >>= second)
      (Problem.ofData ⟨d, rows₁ ++ rows₂⟩ (y₁ ++ y₂) >>= whole) := by
  by_cases hparts : (∃ p₁, Problem.ofData ⟨d, rows₁⟩ y₁ = .ok p₁) ∧
      ∃ p₂, Problem.ofData ⟨d, rows₂⟩ y₂ = .ok p₂
  · obtain ⟨⟨p₁, hp₁⟩, p₂, hp₂⟩ := hparts
    rw [hp₁, hp₂, Problem.ofData_append hp₁ hp₂]
    exact h p₁ p₂ (Problem.size_of_ofData hp₁) (Problem.size_of_ofData hp₂)
  · cases hwhole : Problem.ofData ⟨d, rows₁ ++ rows₂⟩ (y₁ ++ y₂) with
    | ok p =>
        have hy := (h₁.append h₂).exists_ofData_iff.1 ⟨p, hwhole⟩
        rw [List.forall_mem_append, ← h₁.exists_ofData_iff, ← h₂.exists_ofData_iff] at hy
        exact absurd hy hparts
    | error fault =>
        refine Combines.of_error fun ⟨⟨a₁, ha₁⟩, a₂, ha₂⟩ => hparts ?_
        obtain ⟨p₁, hp₁, -⟩ := exists_of_bind_eq_ok ha₁
        obtain ⟨p₂, hp₂, -⟩ := exists_of_bind_eq_ok ha₂
        exact ⟨⟨p₁, hp₁⟩, p₂, hp₂⟩

theorem combines_misclassification (β : List ℝ) :
    Combines (Pooled rows₁.length rows₂.length) (misclassification ⟨d, rows₁⟩ y₁ β)
      (misclassification ⟨d, rows₂⟩ y₂ β)
      (misclassification ⟨d, rows₁ ++ rows₂⟩ (y₁ ++ y₂) β) := by
  refine h₁.combines_bind h₂ fun p₁ p₂ hsize₁ hsize₂ => ?_
  rw [Table.point_mk rows₁ rows₂, Table.point_mk rows₁ (rows₁ ++ rows₂), ← hsize₁, ← hsize₂]
  exact .bind _ fun w _ => .of_ok (Problem.pooled_misclassification p₁ p₂ w)

theorem combines_objective (β : List ℝ) (penalty : ℝ) :
    Combines
      (fun a₁ a₂ a => ∃ w : Vec ℝ d, w.toList = β ∧ Pooled rows₁.length rows₂.length
        (a₁ - penalty * w.dot w) (a₂ - penalty * w.dot w) (a - penalty * w.dot w))
      (objective ⟨d, rows₁⟩ y₁ β penalty) (objective ⟨d, rows₂⟩ y₂ β penalty)
      (objective ⟨d, rows₁ ++ rows₂⟩ (y₁ ++ y₂) β penalty) := by
  refine h₁.combines_bind h₂ fun p₁ p₂ hsize₁ hsize₂ => ?_
  rw [Table.point_mk rows₁ rows₂, Table.point_mk rows₁ (rows₁ ++ rows₂), ← hsize₁, ← hsize₂]
  refine .bind _ fun w hw => .bind _ fun _ _ => .of_ok ?_
  exact ⟨w, Table.toList_of_point hw, Problem.pooled_objective p₁ p₂ penalty w⟩

theorem combines_gradient (β : List ℝ) (penalty : ℝ) :
    Combines
      (fun g₁ g₂ g => ∃ w : Vec ℝ d, w.toList = β ∧ ∀ j, Pooled rows₁.length rows₂.length
        (g₁.get j - 2 * penalty * w.get j) (g₂.get j - 2 * penalty * w.get j)
        (g.get j - 2 * penalty * w.get j))
      (gradient ⟨d, rows₁⟩ y₁ β penalty) (gradient ⟨d, rows₂⟩ y₂ β penalty)
      (gradient ⟨d, rows₁ ++ rows₂⟩ (y₁ ++ y₂) β penalty) := by
  refine h₁.combines_bind h₂ fun p₁ p₂ hsize₁ hsize₂ => ?_
  rw [Table.point_mk rows₁ rows₂, Table.point_mk rows₁ (rows₁ ++ rows₂), ← hsize₁, ← hsize₂]
  refine .bind _ fun w hw => .bind _ fun _ _ => .of_ok ?_
  exact ⟨w, Table.toList_of_point hw, Problem.pooled_gradient p₁ p₂ penalty w⟩

/-- The error rate is the misclassification on the design, to which each row comes by itself. -/
theorem combines_errorRate (model : Estimator ℝ) :
    Combines (Pooled rows₁.length rows₂.length) (model.errorRate ⟨d, rows₁⟩ y₁)
      (model.errorRate ⟨d, rows₂⟩ y₂) (model.errorRate ⟨d, rows₁ ++ rows₂⟩ (y₁ ++ y₂)) := by
  cases hc : model.coefficients with
  | none =>
      have hrefused : ∀ x y, model.errorRate x y = .error .notFitted := by
        intro x y
        rw [Estimator.errorRate, Estimator.onDesign, hc]
        rfl
      rw [hrefused, hrefused, hrefused]
      exact .error _
  | some c =>
      obtain ⟨e, f, hdesign⟩ := model.settings.exists_design_rows d
      rw [Estimator.errorRate_eq hc, Estimator.errorRate_eq hc, Estimator.errorRate_eq hc,
        hdesign, hdesign, hdesign, List.map_append, ← rows₁.length_map f, ← rows₂.length_map f]
      exact (h₁.map f).combines_misclassification (h₂.map f) _

end Batch

/-- Two batches put together. The whole is standardised, predicted and judged as the parts are:
each call has an answer exactly if both parts have one. The rows standardised, the probabilities
and the predictions are those of the parts in order. The misclassification and the error rate,
and the objective and each entry of the gradient once the penalty is taken off, are the means of
those of the parts, weighted by the sizes. -/
theorem Batch.calls_append (h₁ : Batch rows₁ y₁) (h₂ : Batch rows₂ y₂) :
    let x₁ : Table ℝ := ⟨d, rows₁⟩
    let x₂ : Table ℝ := ⟨d, rows₂⟩
    let x : Table ℝ := ⟨d, rows₁ ++ rows₂⟩
    let y := y₁ ++ y₂
    let pooled := Pooled x₁.height x₂.height
    (∀ s : Standardizer ℝ,
      Combines (Table.Stacked d) (s.transform x₁) (s.transform x₂) (s.transform x) ∧
      ∀ st, s.statistics = some st → st.width = d → ∃ z, s.transform x = .ok z) ∧
    (∀ model : Estimator ℝ,
      Combines (fun a₁ a₂ a => a = a₁ ++ a₂) (model.probabilities x₁) (model.probabilities x₂)
        (model.probabilities x) ∧
      Combines (fun a₁ a₂ a => a = a₁ ++ a₂) (model.predict x₁) (model.predict x₂)
        (model.predict x) ∧
      Combines pooled (model.errorRate x₁ y₁) (model.errorRate x₂ y₂) (model.errorRate x y) ∧
      ∀ w : Vec ℝ d, model.coefficients = some w.toList →
        (∃ a, model.probabilities x = .ok a) ∧ (∃ a, model.predict x = .ok a) ∧
        ((∀ v ∈ y, Label.IsSign v) → ∃ a, model.errorRate x y = .ok a)) ∧
    (∀ β, Combines pooled (misclassification x₁ y₁ β) (misclassification x₂ y₂ β)
      (misclassification x y β)) ∧
    (∀ β penalty,
      Combines
        (fun a₁ a₂ a => ∃ w : Vec ℝ d, w.toList = β ∧
          pooled (a₁ - penalty * w.dot w) (a₂ - penalty * w.dot w) (a - penalty * w.dot w))
        (objective x₁ y₁ β penalty) (objective x₂ y₂ β penalty) (objective x y β penalty) ∧
      Combines
        (fun g₁ g₂ g => ∃ w : Vec ℝ d, w.toList = β ∧ ∀ j,
          pooled (g₁.get j - 2 * penalty * w.get j) (g₂.get j - 2 * penalty * w.get j)
            (g.get j - 2 * penalty * w.get j))
        (gradient x₁ y₁ β penalty) (gradient x₂ y₂ β penalty) (gradient x y β penalty)) ∧
    ((∀ v ∈ y, Label.IsSign v) → ∀ w : Vec ℝ d,
      (∃ a, misclassification x y w.toList = .ok a) ∧
      ∀ penalty, 0 ≤ penalty →
        (∃ a, objective x y w.toList penalty = .ok a) ∧
        ∃ g, gradient x y w.toList penalty = .ok g) := by
  intro x₁ x₂ x y pooled
  have hwhole := (h₁.append h₂).exists_answers
  refine ⟨fun s => ⟨?_, ?_⟩, fun model => ⟨?_, ?_, h₁.combines_errorRate h₂ model, ?_⟩,
    h₁.combines_misclassification h₂,
    fun β penalty => ⟨h₁.combines_objective h₂ β penalty, h₁.combines_gradient h₂ β penalty⟩,
    fun hy w => ⟨(hwhole hy w).1, (hwhole hy w).2.1⟩⟩
  · exact .of_rowByRow (s.rowByRow_transform d) (fun _ _ => ⟨_, _, rfl, rfl, rfl⟩) rows₁ rows₂
  · rintro st hst rfl
    exact ⟨_, Standardizer.transform_eq hst _⟩
  · exact .of_rowByRow (model.rowByRow_probabilities d) (fun _ _ => rfl) rows₁ rows₂
  · exact .of_rowByRow (model.rowByRow_predict d) (fun _ _ => rfl) rows₁ rows₂
  · intro w hw
    exact ⟨⟨_, Estimator.probabilities_eq (x := x) hw⟩, ⟨_, Estimator.predict_eq (x := x) hw⟩,
      fun hy => (hwhole hy w).2.2 model hw⟩

end

/-- One sample and two more, at the point one and with the penalty one. -/
theorem Batch.calls_append_singleton :
    let rows₁ : List (Vec ℝ 1) := [⟨[1], rfl⟩]
    let rows₂ : List (Vec ℝ 1) := [⟨[2], rfl⟩, ⟨[3], rfl⟩]
    Batch rows₁ [1] ∧ Batch rows₂ [-1, 1] ∧
    ∃ a₁ a₂ a, objective ⟨1, rows₁⟩ [1] [1] 1 = .ok a₁ ∧
      objective ⟨1, rows₂⟩ [-1, 1] [1] 1 = .ok a₂ ∧
      objective ⟨1, rows₁ ++ rows₂⟩ [1, -1, 1] [1] 1 = .ok a ∧
      3 * (a - 1) = (a₁ - 1) + 2 * (a₂ - 1) := by
  intro rows₁ rows₂
  have h₁ : Batch rows₁ [1] := ⟨rfl, List.cons_ne_nil _ _⟩
  have h₂ : Batch rows₂ [-1, 1] := ⟨rfl, List.cons_ne_nil _ _⟩
  obtain ⟨-, -, -, hcombines, hanswers⟩ := h₁.calls_append h₂
  have hlabels : ∀ v ∈ [(1 : ℝ)] ++ [-1, 1], Label.IsSign v := by
    rw [← Label.exists_readSigns_iff]
    exact ⟨_, Label.readFrom_map_value 0 [.positive, .negative, .positive]⟩
  obtain ⟨a, ha⟩ := ((hanswers hlabels ⟨[1], rfl⟩).2 1 zero_le_one).1
  obtain ⟨⟨a₁, ha₁⟩, a₂, ha₂⟩ := (hcombines [1] 1).1.exists_ok_iff.1 ⟨a, ha⟩
  obtain ⟨w, hw, hpooled⟩ := (hcombines [1] 1).1.made_of ha₁ ha₂ ha
  have hdot : w.dot w = 1 := by
    obtain rfl : w = Vec.cons 1 Vec.nil := Vec.ext hw
    rw [Vec.cons_dot_cons, Vec.dot_eq_sum, Fin.sum_univ_zero, one_mul, add_zero]
  refine ⟨h₁, h₂, a₁, a₂, a, ha₁, ha₂, ha, ?_⟩
  simp only [Pooled, hdot] at hpooled
  norm_num [Table.height, rows₁, rows₂] at hpooled
  exact hpooled

end RidgeLogistic
