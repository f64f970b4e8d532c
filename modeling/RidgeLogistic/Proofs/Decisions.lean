import RidgeLogistic.Decision
import RidgeLogistic.Proofs.Exact

/-!
# Decisions

The misclassification is a count of places: those at which the labels that the scores
decide for differ from the labels that the responses stand for, over their number. That
much holds for any arithmetic (`Problem.misclassification_of_ofData`).

Over exact arithmetic a decision looks at the sign of the score alone
(`Label.ofScore_eq_positive_iff`). The clamps of the logistic function do not show in it:
they set in far from zero, where the probability is on the same side of one half.
-/

namespace RidgeLogistic

/-! ## Counting -/

section

variable {α : Type} [Scalar α]

namespace Label

def ofScore (z : α) : Label :=
  .ofProbability (sigmoid z)

/-- At how many places two lists of labels differ. -/
def disagreements (decided labels : List Label) : Nat :=
  (decided.zip labels).countP fun pair => pair.1 != pair.2

def agreements (decided labels : List Label) : Nat :=
  (decided.zip labels).countP fun pair => pair.1 == pair.2

omit [Scalar α] in
theorem agreements_add_disagreements {decided labels : List Label}
    (h : decided.length = labels.length) :
    agreements decided labels + disagreements decided labels = decided.length := by
  have hsplit := (decided.zip labels).length_eq_countP_add_countP fun pair => pair.1 == pair.2
  rw [List.length_zip, h, Nat.min_self] at hsplit
  rw [h, hsplit, agreements, disagreements]
  congr 1
  exact List.countP_congr fun pair _ => by simp

omit [Scalar α] in
theorem disagreements_singleton (decided label : Label) :
    disagreements [decided] [label] = if decided = label then 0 else 1 := by
  cases decided <;> cases label <;> rfl

end Label

theorem Problem.misclassification_of_ofData {x : Table α} {y : List α}
    {p : Problem α x.width} (hp : Problem.ofData x y = .ok p) :
    ∃ labels, Label.readSigns y = .ok labels ∧ x.rows.length = labels.length ∧
      ∀ β, p.misclassification β =
        (Label.disagreements (x.rows.map fun row => .ofScore (row.dot β)) labels : α) /
          (x.height : α) := by
  obtain ⟨labels, hlabels, hlength, hsamples⟩ := samples_of_ofData hp
  refine ⟨labels, hlabels, hlength, fun β => ?_⟩
  rw [misclassification, size_of_ofData hp, hsamples, ← List.map_uncurry_zip_eq_zipWith,
    List.countP_map, Label.disagreements, List.zip_map_left, List.countP_map]
  rfl

theorem misclassification_eq {x : Table α} {y : List α} {p : Problem α x.width}
    (hp : Problem.ofData x y = .ok p) (β : Vec α x.width) :
    misclassification x y β.toList = .ok (p.misclassification β) := by
  rw [misclassification, hp, Table.point_toList]
  rfl

theorem misclassification_spec {x : Table α} {y β : List α} {rate : α}
    (h : misclassification x y β = .ok rate) :
    ∃ (p : Problem α x.width) (w : Vec α x.width), Problem.ofData x y = .ok p ∧
      w.toList = β ∧ rate = p.misclassification w := by
  obtain ⟨p, hp, h⟩ := exists_of_bind_eq_ok h
  obtain ⟨w, hw, h⟩ := exists_of_bind_eq_ok h
  exact ⟨p, w, hp, Table.toList_of_point hw, (Except.ok.inj h).symm⟩

end

/-! ## Decisions over exact arithmetic -/

theorem half_lt_sigmoid_iff (z : ℝ) : 1 / 2 < sigmoid z ↔ 0 < z := by
  have hclamp : (500.0 : ℝ) = 500 := by norm_num
  rw [sigmoid]
  split
  · next hlarge =>
      replace hlarge : (500.0 : ℝ) < z := hlarge
      exact iff_of_true one_half_lt_one (by linarith)
  · split
    · next hsmall =>
        replace hsmall : z < -(500.0 : ℝ) := hsmall
        exact iff_of_false (not_lt.2 (by norm_num)) (by linarith)
    · show 1 / 2 < 1 / (1 + Real.exp (-z)) ↔ 0 < z
      have hexp := Real.exp_pos (-z)
      rw [one_div_lt_one_div two_pos (by linarith), ← one_add_one_eq_two,
        add_lt_add_iff_left, Real.exp_lt_one_iff, neg_lt_zero]

namespace Label

theorem ofScore_eq_positive_iff (z : ℝ) : ofScore z = .positive ↔ 0 < z := by
  have hhalf : (0.5 : ℝ) = 1 / 2 := by norm_num
  rw [← half_lt_sigmoid_iff, ← hhalf, ofScore, ofProbability]
  split
  · next h => exact iff_of_true rfl h
  · next h => exact iff_of_false (by simp) h

theorem ofScore_eq_ofScore_iff {z z' : ℝ} : ofScore z = ofScore z' ↔ (0 < z ↔ 0 < z') := by
  rw [← ofScore_eq_positive_iff, ← ofScore_eq_positive_iff]
  cases ofScore z <;> cases ofScore z' <;> simp

end Label

end RidgeLogistic
