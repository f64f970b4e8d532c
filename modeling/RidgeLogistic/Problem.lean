import RidgeLogistic.Label
import RidgeLogistic.Table

/-!
# Problems

A problem is what every evaluation and every solver works on: at least one sample,
each a row of features with a label. `Problem.ofData` is where data becomes a
problem. All it checks is then held by the type, and what is computed from a
`Problem` and vectors of its width cannot fail.
-/

namespace RidgeLogistic

structure Sample (α : Type) (d : Nat) where
  features : Vec α d
  label : Label

/-- A sample or more, all of one width. -/
structure Problem (α : Type) (d : Nat) where
  samples : List (Sample α d)
  samples_ne_nil : samples ≠ []

namespace Problem

variable {α : Type} {d : Nat}

def size (p : Problem α d) : Nat :=
  p.samples.length

theorem size_pos (p : Problem α d) : 0 < p.size :=
  List.length_pos_iff.2 p.samples_ne_nil

/-- The problem that a table and its responses pose. They have to agree in number,
there has to be a row, and each response has to be a label. -/
def ofData [Scalar α] (x : Table α) (y : List α) :
    Except (Error α) (Problem α x.width) :=
  if unequal : x.height ≠ y.length then
    .error (.dimension (.responses x.height y.length))
  else if empty : x.height = 0 then
    .error (.dimension .noSamples)
  else
    match read : Label.readSigns y with
    | .error fault => .error fault
    | .ok labels =>
      .ok ⟨List.zipWith Sample.mk x.rows labels, by
        have hlabels := Label.length_of_readFrom read
        have hrows : x.rows.length = x.height := rfl
        apply List.ne_nil_of_length_pos
        rw [List.length_zipWith]
        omega⟩

section

variable [Scalar α] {x : Table α} {y : List α} {p : Problem α x.width}

theorem samples_of_ofData (h : Problem.ofData x y = .ok p) :
    ∃ labels, Label.readSigns y = .ok labels ∧ x.rows.length = labels.length ∧
      p.samples = List.zipWith Sample.mk x.rows labels := by
  rw [ofData] at h
  split at h
  · injection h
  · next hheight =>
      split at h
      · injection h
      · split at h
        · injection h
        · next labels hlabels =>
            injection h with h
            subst h
            refine ⟨labels, hlabels, ?_, rfl⟩
            exact (Decidable.not_not.1 hheight).trans (Label.length_of_readFrom hlabels).symm

theorem features_of_ofData (h : Problem.ofData x y = .ok p) :
    p.samples.map Sample.features = x.rows := by
  obtain ⟨labels, -, hlength, hsamples⟩ := samples_of_ofData h
  rw [hsamples, List.map_zipWith, ← List.map_uncurry_zip_eq_zipWith]
  exact List.map_fst_zip (Nat.le_of_eq hlength)

theorem size_of_ofData (h : Problem.ofData x y = .ok p) : p.size = x.height := by
  rw [Table.height, ← features_of_ofData h, List.length_map]
  rfl

/-- Which data poses a problem: of the table its height matters alone. -/
theorem exists_ofData_iff :
    (∃ p, Problem.ofData x y = .ok p) ↔
      x.height = y.length ∧ x.height ≠ 0 ∧ ∃ labels, Label.readSigns y = .ok labels := by
  constructor
  · rintro ⟨p, hp⟩
    obtain ⟨labels, hlabels, hlength, -⟩ := samples_of_ofData hp
    refine ⟨hlength.trans (Label.length_of_readFrom hlabels), ?_, labels, hlabels⟩
    rw [← size_of_ofData hp]
    exact Nat.ne_of_gt p.size_pos
  · rintro ⟨hheight, hne, labels, hlabels⟩
    rw [ofData, dif_neg (Decidable.not_not.2 hheight), dif_neg hne]
    split
    · next fault hfault => rw [hlabels] at hfault; injection hfault
    · exact ⟨_, rfl⟩

/-- The problem that data poses is known by its samples. -/
theorem ofData_of_samples {labels : List Label} (hlabels : Label.readSigns y = .ok labels)
    (hlength : x.rows.length = labels.length)
    (hsamples : p.samples = List.zipWith Sample.mk x.rows labels) :
    Problem.ofData x y = .ok p := by
  have hheight : x.height = y.length := hlength.trans (Label.length_of_readFrom hlabels)
  have hne : x.height ≠ 0 := by
    intro hzero
    apply p.samples_ne_nil
    rw [hsamples, List.length_eq_zero_iff.1 hzero]
    rfl
  obtain ⟨q, hq⟩ := exists_ofData_iff.2 ⟨hheight, hne, labels, hlabels⟩
  obtain ⟨labels', hlabels', -, hsamples'⟩ := samples_of_ofData hq
  rw [hlabels] at hlabels'
  injection hlabels' with hlabels'
  subst hlabels'
  have hsame : p.samples = q.samples := hsamples.trans hsamples'.symm
  rw [hq]
  cases p
  cases q
  cases hsame
  rfl

theorem exists_ofData_iff_of_height {x' : Table α} (h : x'.height = x.height) :
    (∃ p, Problem.ofData x' y = .ok p) ↔ ∃ p, Problem.ofData x y = .ok p := by
  rw [exists_ofData_iff, exists_ofData_iff, h]

theorem ofData_eq_error_iff_of_height {x' : Table α} (h : x'.height = x.height)
    {fault : Error α} :
    Problem.ofData x' y = .error fault ↔ Problem.ofData x y = .error fault := by
  rw [ofData, ofData]
  simp only [h]
  split
  · simp
  · split
    · simp
    · split <;> simp

end

end Problem

/-- A list as a vector that fits the rows of a table. -/
def Table.point {α : Type} (x : Table α) (operand : Operand) (v : List α) :
    Except (Error α) (Vec α x.width) :=
  match Vec.ofList? x.width v with
  | some point => .ok point
  | none => .error (.dimension (.width x.width operand v.length))

namespace Table

variable {α : Type} {x : Table α} {operand : Operand}

@[simp] theorem point_toList (v : Vec α x.width) : x.point operand v.toList = .ok v := by
  rw [point, Vec.ofList?_toList]

theorem toList_of_point {v : List α} {w : Vec α x.width}
    (h : x.point operand v = .ok w) : w.toList = v := by
  rw [point] at h
  split at h
  · next u hu =>
      injection h with h
      subst h
      exact (Vec.ofList?_eq_some_iff.1 hu).symm
  · injection h

end Table

end RidgeLogistic
