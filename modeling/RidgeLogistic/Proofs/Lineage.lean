import RidgeLogistic.Problem
import RidgeLogistic.Proofs.Labels
import RidgeLogistic.Proofs.Splitting

/-!
# Where datasets come from

Only one of the ways to a dataset ends in a check. Data is checked when it is read, and labels
in the other encoding are converted first; but a dataset that is drawn from a seed, and the
parts of a split, are put together from features and labels with nobody looking.

`Dataset.WellFormed` is what the check would find: a label for each row, and each of them one of
the two. The ways in establish it, and what a split does keeps it, because it does the same to
the features and to the labels: both are cut after the same row, or taken at the same places
(`WellFormed.cut`, `WellFormed.select`). So it holds of whatever is left after any number of
splits (`Derived.wellFormed`), and a dataset that has a row then poses a problem.
-/

namespace RidgeLogistic

variable {α : Type}

/-! ## Drawn lists -/

theorem Random.Draw.length_list {β : Type} (draw : Random.Draw β) (n : Nat)
    (s : Random.Stream) : ((Random.Draw.list draw n).run s).1.length = n := by
  induction n generalizing s with
  | zero => rfl
  | succ n ih => exact congrArg (· + 1) (ih (draw.run s).2)

namespace Dataset

variable [Scalar α]

/-- There is a label for each row, and each label is one of the two. -/
structure WellFormed (ds : Dataset α) : Prop where
  length_labels : ds.labels.length = ds.size
  isSign : ∀ v ∈ ds.labels, Label.IsSign v

/-! ## The ways in -/

theorem ofData_eq_ok_iff {features : Table α} {labels : List α} {ds : Dataset α} :
    ofData features labels = .ok ds ↔
      features.height = labels.length ∧ (∀ v ∈ labels, Label.IsSign v) ∧
        ds = ⟨features, labels⟩ := by
  rw [ofData, ← Label.exists_readSigns_iff]
  split
  · next h => exact iff_of_false (fun h => by injection h) fun hall => h hall.1
  · next h =>
      constructor
      · intro hok
        obtain ⟨read, hread, hds⟩ := exists_of_bind_eq_ok hok
        exact ⟨Decidable.not_not.1 h, ⟨read, hread⟩, (Except.ok.inj hds).symm⟩
      · rintro ⟨-, ⟨read, hread⟩, rfl⟩
        rw [hread]
        rfl

theorem ofData_eq_error_iff {features : Table α} {labels : List α} {fault : Error α} :
    ofData features labels = .error fault ↔
      (features.height ≠ labels.length ∧
        fault = .dimension (.labels features.height labels.length)) ∨
      (features.height = labels.length ∧ Label.readSigns labels = .error fault) := by
  rw [ofData]
  split
  · next h =>
      constructor
      · exact fun herror => Or.inl ⟨h, (Except.error.inj herror).symm⟩
      · rintro (⟨-, rfl⟩ | ⟨heq, -⟩)
        · rfl
        · exact absurd heq h
  · next h =>
      rw [Decidable.not_not] at h
      constructor
      · intro herror
        rcases or_of_bind_eq_error herror with hread | ⟨_, -, hds⟩
        · exact Or.inr ⟨h, hread⟩
        · injection hds
      · rintro (⟨hne, -⟩ | ⟨-, hread⟩)
        · exact absurd h hne
        · rw [hread]
          rfl

/-- The number is judged first. -/
theorem ofData_eq_dimension_iff {features : Table α} {labels : List α}
    {fault : DimensionFault} :
    ofData features labels = .error (.dimension fault) ↔
      features.height ≠ labels.length ∧ fault = .labels features.height labels.length := by
  rw [ofData_eq_error_iff, Label.readSigns_eq_error_iff]
  constructor
  · rintro (⟨hne, hfault⟩ | ⟨-, _, _, -, hfault⟩)
    · injection hfault with hfault
      exact ⟨hne, hfault⟩
    · injection hfault
  · rintro ⟨hne, rfl⟩
    exact Or.inl ⟨hne, rfl⟩

theorem ofData_eq_label_iff {features : Table α} {labels : List α} {index : Nat} {v : α} :
    ofData features labels = .error (.label index v) ↔
      features.height = labels.length ∧ Label.FirstFailing Label.IsSign labels index v := by
  rw [ofData_eq_error_iff, Label.readSigns_eq_error_iff]
  constructor
  · rintro (⟨-, hfault⟩ | ⟨heq, _, _, h, hfault⟩)
    · injection hfault
    · injection hfault with hindex hv
      rw [hindex, hv]
      exact ⟨heq, h⟩
  · rintro ⟨heq, h⟩
    exact Or.inr ⟨heq, index, v, h, rfl⟩

theorem WellFormed.of_ofData {features : Table α} {labels : List α} {ds : Dataset α}
    (h : ofData features labels = .ok ds) : ds.WellFormed := by
  obtain ⟨hheight, hlabels, rfl⟩ := ofData_eq_ok_iff.1 h
  exact ⟨hheight.symm, hlabels⟩

theorem exists_ofData_of_ofBits {features : Table α} {bits : List α} {ds : Dataset α}
    (h : ofBits features bits = .ok ds) :
    ∃ labels, Label.readBits bits = .ok labels ∧
      ofData features (labels.map Label.value) = .ok ds :=
  exists_of_bind_eq_ok h

theorem simulated_eq (samples width : Nat) (seed : UInt64) :
    ∃ (labels : List Label) (rows : List (Vec α width)),
      labels.length = samples ∧ rows.length = samples ∧
        simulated samples width seed = ⟨⟨width, rows⟩, labels.map Label.value⟩ := by
  let drawn := (Random.Draw.list drawLabel samples).run (.ofSeed seed)
  let noise := (Random.Draw.list (drawVec (α := α) .layers width) samples).run drawn.2
  have hlabels : drawn.1.length = samples := Random.Draw.length_list _ _ _
  have hnoise : noise.1.length = samples := Random.Draw.length_list _ _ _
  refine ⟨drawn.1, _, hlabels, ?_, rfl⟩
  rw [List.length_zipWith]
  exact (congrArg₂ min hlabels hnoise).trans (Nat.min_self samples)

/-! ## What a split does -/

section

variable {ds : Dataset α}

theorem WellFormed.cut (h : ds.WellFormed) (count : Nat) :
    (ds.cut count).train.WellFormed ∧ (ds.cut count).test.WellFormed := by
  obtain ⟨htrain, htest⟩ := ds.size_cut count
  refine ⟨⟨?_, fun v hv => h.isSign v (List.mem_of_mem_take hv)⟩,
    ⟨?_, fun v hv => h.isSign v (List.mem_of_mem_drop hv)⟩⟩
  · rw [htrain, ← h.length_labels]
    exact List.length_take
  · rw [htest, ← h.length_labels]
    exact List.length_drop

theorem WellFormed.select (h : ds.WellFormed) (places : List Nat) :
    (ds.select places).WellFormed := by
  refine ⟨length_filterMap_getElem? h.length_labels places, fun v hv => ?_⟩
  obtain ⟨place, -, hplace⟩ := List.mem_filterMap.1 hv
  exact h.isSign v (List.mem_of_getElem? hplace)

theorem WellFormed.split (h : ds.WellFormed) {testSize : α} {parts : Split α}
    (hsplit : ds.split testSize = .ok parts) :
    parts.train.WellFormed ∧ parts.test.WellFormed := by
  obtain ⟨-, rfl⟩ := ds.cut_of_split hsplit
  exact h.cut _

theorem WellFormed.shuffledSplit (h : ds.WellFormed) {testSize : α} {seed : UInt64}
    {parts : Split α} (hsplit : ds.shuffledSplit testSize seed = .ok parts) :
    parts.train.WellFormed ∧ parts.test.WellFormed := by
  obtain ⟨train, test, htrain, htest⟩ := ds.select_of_shuffledSplit hsplit
  rw [htrain, htest]
  exact ⟨h.select train, h.select test⟩

theorem WellFormed.exists_problem (h : ds.WellFormed) (hne : ds.size ≠ 0) :
    ∃ p, Problem.ofData ds.features ds.labels = .ok p :=
  Problem.exists_ofData_iff.2
    ⟨h.length_labels.symm, hne, Label.exists_readSigns_iff.2 h.isSign⟩

end

/-! ## Any number of splits -/

/-- The datasets that come about: read from data or drawn from a seed, and then split any
number of times, with either part kept. The number is the width at the beginning. -/
inductive Derived : Nat → Dataset α → Prop where
  | data {features : Table α} {labels : List α} {ds : Dataset α}
      (h : ofData features labels = .ok ds) : Derived features.width ds
  | bits {features : Table α} {labels : List α} {ds : Dataset α}
      (h : ofBits features labels = .ok ds) : Derived features.width ds
  | simulated (samples width : Nat) (seed : UInt64) :
      Derived width (simulated samples width seed)
  | split {width : Nat} {ds kept : Dataset α} (hds : Derived width ds) {testSize : α}
      {parts : Split α} (h : ds.split testSize = .ok parts)
      (hkept : kept = parts.train ∨ kept = parts.test) : Derived width kept
  | shuffledSplit {width : Nat} {ds kept : Dataset α} (hds : Derived width ds) {testSize : α}
      {seed : UInt64} {parts : Split α} (h : ds.shuffledSplit testSize seed = .ok parts)
      (hkept : kept = parts.train ∨ kept = parts.test) : Derived width kept

section

variable {width : Nat} {ds : Dataset α}

theorem Derived.width_eq (h : Derived width ds) : ds.features.width = width := by
  induction h with
  | data h =>
      obtain ⟨-, -, rfl⟩ := ofData_eq_ok_iff.1 h
      rfl
  | bits h =>
      obtain ⟨labels, -, h⟩ := exists_ofData_of_ofBits h
      obtain ⟨-, -, rfl⟩ := ofData_eq_ok_iff.1 h
      rfl
  | simulated samples width seed => rfl
  | split _ h hkept ih =>
      obtain ⟨-, rfl⟩ := cut_of_split _ h
      rcases hkept with rfl | rfl <;> exact ih
  | shuffledSplit _ h hkept ih =>
      obtain ⟨train, test, htrain, htest⟩ := select_of_shuffledSplit _ h
      rcases hkept with rfl | rfl
      · rw [htrain]
        exact ih
      · rw [htest]
        exact ih

theorem Derived.wellFormed [LawfulLabels α] (h : Derived width ds) : ds.WellFormed := by
  induction h with
  | data h => exact .of_ofData h
  | bits h =>
      obtain ⟨labels, -, h⟩ := exists_ofData_of_ofBits h
      exact .of_ofData h
  | simulated samples width seed =>
      obtain ⟨labels, rows, hlabels, hrows, heq⟩ :=
        simulated_eq (α := α) samples width seed
      rw [heq]
      refine ⟨?_, Label.exists_readSigns_iff.1 ⟨labels, Label.readFrom_map_value 0 labels⟩⟩
      exact (List.length_map _).trans (hlabels.trans hrows.symm)
  | split _ h hkept ih =>
      obtain ⟨htrain, htest⟩ := ih.split h
      rcases hkept with rfl | rfl
      · exact htrain
      · exact htest
  | shuffledSplit _ h hkept ih =>
      obtain ⟨htrain, htest⟩ := ih.shuffledSplit h
      rcases hkept with rfl | rfl
      · exact htrain
      · exact htest

end

/-! ## Labels in the other encoding -/

section

variable [LawfulLabels α] {features : Table α} {bits : List α}

/-- Once the labels are read, nothing can be wrong with them. -/
theorem ofBits_of_read {labels : List Label} (h : Label.readBits bits = .ok labels) :
    ofBits features bits =
      if features.height = bits.length then .ok ⟨features, labels.map Label.value⟩
      else .error (.dimension (.labels features.height bits.length)) := by
  have hlength : (labels.map (Label.value (α := α))).length = bits.length :=
    (List.length_map _).trans (Label.length_of_readFrom h)
  have hsigns : ∀ v ∈ labels.map (Label.value (α := α)), Label.IsSign v :=
    Label.exists_readSigns_iff.1 ⟨labels, Label.readFrom_map_value 0 labels⟩
  rw [ofBits, h]
  show ofData features (labels.map Label.value) = _
  split
  · next heq => exact ofData_eq_ok_iff.2 ⟨heq.trans hlength.symm, hsigns, rfl⟩
  · next hne =>
      rw [← hlength] at hne ⊢
      exact ofData_eq_error_iff.2 (Or.inl ⟨hne, rfl⟩)

theorem exists_ofBits_iff :
    (∃ ds, ofBits features bits = .ok ds) ↔
      features.height = bits.length ∧ ∀ v ∈ bits, Label.IsBit v := by
  rw [← Label.exists_readBits_iff]
  constructor
  · rintro ⟨ds, h⟩
    obtain ⟨labels, hread, hdata⟩ := exists_ofData_of_ofBits h
    refine ⟨?_, labels, hread⟩
    rw [(ofData_eq_ok_iff.1 hdata).1, List.length_map, Label.length_of_readFrom hread]
  · rintro ⟨heq, labels, hread⟩
    exact ⟨_, (ofBits_of_read hread).trans (if_pos heq)⟩

theorem ofBits_eq_error_iff {fault : Error α} :
    ofBits features bits = .error fault ↔
      (∃ index v, Label.FirstFailing Label.IsBit bits index v ∧ fault = .label index v) ∨
      (∀ v ∈ bits, Label.IsBit v) ∧ features.height ≠ bits.length ∧
        fault = .dimension (.labels features.height bits.length) := by
  rw [← Label.readBits_eq_error_iff, ← Label.exists_readBits_iff]
  cases hread : Label.readBits bits with
  | error e =>
      rw [ofBits, hread]
      show (.error e : Except (Error α) (Dataset α)) = .error fault ↔ _
      constructor
      · exact fun h => Or.inl (congrArg Except.error (Except.error.inj h))
      · rintro (h | ⟨⟨labels, h⟩, -⟩)
        · exact congrArg Except.error (Except.error.inj h)
        · injection h
  | ok labels =>
      rw [ofBits_of_read hread]
      split
      · next heq =>
          refine iff_of_false (fun h => by injection h) ?_
          rintro (h | ⟨-, hne, -⟩)
          · injection h
          · exact hne heq
      · next hne =>
          constructor
          · exact fun h => Or.inr ⟨⟨labels, rfl⟩, hne, (Except.error.inj h).symm⟩
          · rintro (h | ⟨-, -, rfl⟩)
            · injection h
            · rfl

/-- The labels are judged first. -/
theorem ofBits_eq_label_iff {index : Nat} {v : α} :
    ofBits features bits = .error (.label index v) ↔
      Label.FirstFailing Label.IsBit bits index v := by
  rw [ofBits_eq_error_iff]
  constructor
  · rintro (⟨_, _, h, hfault⟩ | ⟨-, -, hfault⟩)
    · injection hfault with hindex hv
      rwa [hindex, hv]
    · injection hfault
  · exact fun h => Or.inl ⟨index, v, h, rfl⟩

theorem ofBits_eq_dimension_iff {fault : DimensionFault} :
    ofBits features bits = .error (.dimension fault) ↔
      (∀ v ∈ bits, Label.IsBit v) ∧ features.height ≠ bits.length ∧
        fault = .labels features.height bits.length := by
  rw [ofBits_eq_error_iff]
  constructor
  · rintro (⟨_, _, -, hfault⟩ | ⟨hbits, hne, hfault⟩)
    · injection hfault
    · injection hfault with hfault
      exact ⟨hbits, hne, hfault⟩
  · rintro ⟨hbits, hne, rfl⟩
    exact Or.inr ⟨hbits, hne, rfl⟩

/-- Which labels come out positive. -/
theorem label_eq_one_iff {ds : Dataset α} (h : ofBits features bits = .ok ds) {i : Nat}
    {v label : α} (hv : bits[i]? = some v) (hlabel : ds.labels[i]? = some label) :
    label = 1 ↔ (v == 1) = true := by
  obtain ⟨labels, hread, hdata⟩ := exists_ofData_of_ofBits h
  obtain ⟨-, -, rfl⟩ := ofData_eq_ok_iff.1 hdata
  have hentry := congrArg (·[i]?) (Label.readFrom_eq_ok_iff.1 hread)
  simp only [List.getElem?_map, hv] at hentry hlabel
  obtain ⟨given, hgiven, rfl⟩ := Option.map_eq_some_iff.1 hlabel
  rw [hgiven] at hentry
  rw [← Label.ofBit?_eq_some_positive_iff, Option.some.inj hentry]
  exact (Label.value_injective.eq_iff (b := Label.positive)).trans (Option.some_inj).symm

end

/-- Whatever data or seed a dataset comes from, and whatever parts of splits were kept since, it
has a label for each row, each label is one of the two, and it is as wide as it was at first; so
it poses a problem as soon as it has a row. One that is drawn has the shape asked for. Data with
labels zero and one is accepted exactly if there are no others and as many as there are rows;
ones become the positive label. Of the two faults the first label that is none is reported
there, and elsewhere the number. -/
theorem labelled_of_derived (α : Type) [Scalar α] [LawfulLabels α] :
    (∀ (width : Nat) (ds : Dataset α), Derived width ds →
      ds.features.height = ds.labels.length ∧ (∀ v ∈ ds.labels, v = -1 ∨ v = 1) ∧
      (∃ labels, Label.readSigns ds.labels = .ok labels) ∧ ds.features.width = width ∧
      (ds.features.height ≠ 0 → ∃ p, Problem.ofData ds.features ds.labels = .ok p)) ∧
    (∀ (samples width : Nat) (seed : UInt64),
      let ds : Dataset α := simulated samples width seed
      ds.features.height = samples ∧ ds.features.width = width ∧
        ds.labels.length = samples) ∧
    (∀ (features : Table α) (bits : List α),
      ((∃ ds, ofBits features bits = .ok ds) ↔
        features.height = bits.length ∧ ∀ v ∈ bits, (v == 0) = true ∨ (v == 1) = true) ∧
      (∀ ds, ofBits features bits = .ok ds →
        ds.features = features ∧ ds.labels.length = bits.length ∧
        ∀ (i : Nat) (v label : α), bits[i]? = some v → ds.labels[i]? = some label →
          (label = 1 ↔ (v == 1) = true)) ∧
      (∀ index v, ofBits features bits = .error (.label index v) ↔
        Label.FirstFailing Label.IsBit bits index v) ∧
      ∀ fault, ofBits features bits = .error (.dimension fault) ↔
        (∀ v ∈ bits, Label.IsBit v) ∧ features.height ≠ bits.length ∧
          fault = .labels features.height bits.length) ∧
    ∀ (features : Table α) (labels : List α),
      (∀ fault, ofData features labels = .error (.dimension fault) ↔
        features.height ≠ labels.length ∧ fault = .labels features.height labels.length) ∧
      ∀ index v, ofData features labels = .error (.label index v) ↔
        features.height = labels.length ∧ Label.FirstFailing Label.IsSign labels index v := by
  refine ⟨fun width ds h => ?_, fun samples width seed => ?_, fun features bits => ?_,
    fun features labels => ?_⟩
  · have hds := h.wellFormed
    exact ⟨hds.length_labels.symm, fun v hv => (hds.isSign v hv).eq_or_eq,
      Label.exists_readSigns_iff.2 hds.isSign, h.width_eq, hds.exists_problem⟩
  · obtain ⟨labels, rows, hlabels, hrows, heq⟩ := simulated_eq (α := α) samples width seed
    rw [heq]
    exact ⟨hrows, rfl, (List.length_map _).trans hlabels⟩
  · refine ⟨exists_ofBits_iff, fun ds h => ?_, fun _ _ => ofBits_eq_label_iff,
      fun _ => ofBits_eq_dimension_iff⟩
    have hone : ∀ (i : Nat) (v label : α), bits[i]? = some v → ds.labels[i]? = some label →
        (label = 1 ↔ (v == 1) = true) := fun _ _ _ => label_eq_one_iff h
    obtain ⟨labels, hread, hdata⟩ := exists_ofData_of_ofBits h
    obtain ⟨-, -, rfl⟩ := ofData_eq_ok_iff.1 hdata
    exact ⟨rfl, (List.length_map _).trans (Label.length_of_readFrom hread), hone⟩
  · exact ⟨fun _ => ofData_eq_dimension_iff, fun _ _ => ofData_eq_label_iff⟩

/-- Two rows with labels zero and one, of which the last is kept. -/
theorem labelled_of_derived_bits :
    ∃ (ds : Dataset ℝ) (parts : Split ℝ),
      ofBits ⟨1, [.replicate 1 3, .replicate 1 4]⟩ [0, 1] = .ok ds ∧
      ds.split (1 / 2) = .ok parts ∧ Derived 1 parts.test ∧ ds.labels[1]? = some 1 ∧
      parts.test.features.height = 1 ∧ parts.test.labels.length = 1 ∧
      parts.test.features.width = 1 ∧ (∀ v ∈ parts.test.labels, v = -1 ∨ v = 1) ∧
      ∃ p, Problem.ofData parts.test.features parts.test.labels = .ok p := by
  obtain ⟨hderived, -, hbits, -⟩ := labelled_of_derived ℝ
  obtain ⟨hexists, hlabels, -⟩ := hbits ⟨1, [.replicate 1 3, .replicate 1 4]⟩ [0, 1]
  obtain ⟨ds, hds⟩ := hexists.2 ⟨rfl, by simp⟩
  obtain ⟨hfeatures, hlength, hone⟩ := hlabels ds hds
  have hsize : ds.size = 2 := by rw [size, hfeatures]; rfl
  have hcount : Scalar.roundNat ((ds.size : ℝ) * (1 / 2)) = 1 := by
    rw [hsize, roundNat_eq]
    norm_num
  obtain ⟨parts, hparts⟩ := (ds.exists_split_iff (α := ℝ)).2 ⟨one_half_pos, one_half_lt_one⟩
  have htest : Derived 1 parts.test := .split (.bits hds) hparts (Or.inr rfl)
  obtain ⟨hheight, hvalues, -, hwidth, hproblem⟩ := hderived 1 parts.test htest
  have hrow : parts.test.features.height = 1 := by
    obtain ⟨-, rfl⟩ := ds.cut_of_split hparts
    rw [hcount, hsize]
    exact (ds.size_cut 1).2.trans (by rw [hsize])
  refine ⟨ds, parts, hds, hparts, htest, ?_, hrow, hheight.symm.trans hrow, hwidth, hvalues,
    hproblem (by rw [hrow]; decide)⟩
  obtain ⟨label, hlabel⟩ : ∃ label, ds.labels[1]? = some label :=
    ⟨_, List.getElem?_eq_getElem (by rw [hlength]; decide)⟩
  rw [hlabel, (hone 1 1 label rfl hlabel).2 ((beq_iff_eq_real 1 1).2 rfl)]

end Dataset

end RidgeLogistic
