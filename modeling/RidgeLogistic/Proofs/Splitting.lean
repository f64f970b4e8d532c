import RidgeLogistic.Dataset
import RidgeLogistic.Proofs.Exact
import RidgeLogistic.Proofs.Shuffling

/-!
# Splits

A split cuts a dataset in two after a number of rows, and a split that shuffles does so with
the rows in another order. Features and labels are cut, and reordered, each for themselves;
`Dataset.samples` is where they have to come together again.

`Dataset.samples_select` says that reordering keeps rows and labels aligned, and
`Dataset.shuffledSplit_eq_split` that a split that shuffles is the plain one of the reordered
dataset. The order is a permutation that the number of rows and the seed decide
(`Random.perm_exchanged_range`), so no sample is lost and none is there twice. How many rows
the parts have is a matter of rounding, and over exact arithmetic never more than there are.
-/

namespace RidgeLogistic

/-! ## Entries at places -/

section Places

variable {β γ : Type}

/-- Where each place has an entry, taking the entries skips nothing. What is taken from the
result can then be taken from the places. -/
theorem map_some_filterMap {f : β → Option γ} {bs : List β} (h : ∀ b ∈ bs, (f b).isSome) :
    (bs.filterMap f).map some = bs.map f := by
  induction bs with
  | nil => rfl
  | cons b bs ih =>
      obtain ⟨c, hc⟩ := Option.isSome_iff_exists.1 (h b List.mem_cons_self)
      rw [List.filterMap_cons_some hc, List.map_cons, List.map_cons, hc,
        ih fun b hb => h b (List.mem_cons_of_mem _ hb)]

theorem getElem?_filterMap_of_isSome {f : β → Option γ} {bs : List β}
    (h : ∀ b ∈ bs, (f b).isSome) {k : Nat} {b : β} (hb : bs[k]? = some b) :
    (bs.filterMap f)[k]? = f b := by
  have hentry := congrArg (·[k]?) (map_some_filterMap h)
  simp only [List.getElem?_map, hb] at hentry
  obtain ⟨c, hc, hsome⟩ := Option.map_eq_some_iff.1 hentry
  rw [hc, hsome]

theorem length_filterMap_of_isSome {f : β → Option γ} {bs : List β}
    (h : ∀ b ∈ bs, (f b).isSome) : (bs.filterMap f).length = bs.length := by
  have hlength := congrArg List.length (map_some_filterMap h)
  rwa [List.length_map, List.length_map] at hlength

theorem take_filterMap_of_isSome {f : β → Option γ} {bs : List β}
    (h : ∀ b ∈ bs, (f b).isSome) (k : Nat) :
    (bs.filterMap f).take k = (bs.take k).filterMap f := by
  apply List.map_injective_iff.2 (Option.some_injective γ)
  rw [List.map_take, map_some_filterMap h, ← List.map_take,
    map_some_filterMap fun b hb => h b (List.mem_of_mem_take hb)]

theorem drop_filterMap_of_isSome {f : β → Option γ} {bs : List β}
    (h : ∀ b ∈ bs, (f b).isSome) (k : Nat) :
    (bs.filterMap f).drop k = (bs.drop k).filterMap f := by
  apply List.map_injective_iff.2 (Option.some_injective γ)
  rw [List.map_drop, map_some_filterMap h, ← List.map_drop,
    map_some_filterMap fun b hb => h b (List.mem_of_mem_drop hb)]

theorem zip_filterMap_getElem? {bs : List β} {cs : List γ} (h : bs.length = cs.length)
    (places : List Nat) :
    (places.filterMap (bs[·]?)).zip (places.filterMap (cs[·]?)) =
      places.filterMap ((bs.zip cs)[·]?) := by
  induction places with
  | nil => rfl
  | cons place places ih =>
      by_cases hplace : place < bs.length
      · have hzip : place < (bs.zip cs).length := by
          rw [List.length_zip]
          omega
        rw [List.filterMap_cons_some (List.getElem?_eq_getElem hplace),
          List.filterMap_cons_some (List.getElem?_eq_getElem (h ▸ hplace)),
          List.filterMap_cons_some (List.getElem?_eq_getElem hzip), List.zip_cons_cons, ih,
          List.getElem_zip]
      · have hnone : ∀ {δ : Type} {ds : List δ}, ds.length ≤ place → ds[place]? = none :=
          fun hle => List.getElem?_eq_none hle
        have hzip : (bs.zip cs).length ≤ place := by
          rw [List.length_zip]
          omega
        rw [List.filterMap_cons_none (hnone (by omega)),
          List.filterMap_cons_none (hnone (by omega)), List.filterMap_cons_none (hnone hzip), ih]

/-- A place has an entry in both lists or in neither. -/
theorem length_filterMap_getElem? {bs : List β} {cs : List γ} (h : bs.length = cs.length)
    (places : List Nat) :
    (places.filterMap (bs[·]?)).length = (places.filterMap (cs[·]?)).length := by
  rw [List.length_filterMap_eq_countP, List.length_filterMap_eq_countP]
  refine List.countP_congr fun place _ => ?_
  rw [isSome_getElem?, isSome_getElem?, h]

theorem filterMap_getElem?_range (bs : List β) :
    (List.range bs.length).filterMap (bs[·]?) = bs := by
  apply List.map_injective_iff.2 (Option.some_injective β)
  rw [map_some_filterMap fun place hplace => by simpa using hplace]
  apply List.ext_getElem
  · simp
  · intro place _ _
    simp

end Places

namespace Dataset

section

variable {α : Type}

/-- The rows, each with its own label. -/
def samples (ds : Dataset α) : List (List α × α) :=
  (ds.features.rows.map Vec.toList).zip ds.labels

/-- The dataset cut after `count` rows. -/
def cut (ds : Dataset α) (count : Nat) : Split α where
  train := { features := ds.features.take count, labels := ds.labels.take count }
  test := { features := ds.features.drop count, labels := ds.labels.drop count }

variable (ds : Dataset α)

theorem samples_cut (count : Nat) :
    (ds.cut count).train.samples = ds.samples.take count ∧
      (ds.cut count).test.samples = ds.samples.drop count := by
  refine ⟨?_, ?_⟩
  · rw [samples, samples, List.zip_eq_zipWith, List.zip_eq_zipWith, List.take_zipWith,
      ← List.map_take]
    rfl
  · rw [samples, samples, List.zip_eq_zipWith, List.zip_eq_zipWith, List.drop_zipWith,
      ← List.map_drop]
    rfl

theorem size_cut (count : Nat) :
    (ds.cut count).train.size = min count ds.size ∧
      (ds.cut count).test.size = ds.size - count :=
  ⟨List.length_take, List.length_drop⟩

/-! ## Another order of the rows -/

section

variable {ds} {order : List Nat} (hlabels : ds.labels.length = ds.size)
  (horder : order.Perm (List.range ds.size))

theorem isSome_of_mem_order {β : Type} {bs : List β} {place : Nat}
    (horder : order.Perm (List.range bs.length)) (hplace : place ∈ order) :
    bs[place]?.isSome := by
  have hlt := List.mem_range.1 (horder.mem_iff.1 hplace)
  rw [List.getElem?_eq_getElem hlt]
  rfl

include hlabels in
theorem samples_select (places : List Nat) :
    (ds.select places).samples = places.filterMap (ds.samples[·]?) := by
  have hlength : (ds.features.rows.map Vec.toList).length = ds.labels.length :=
    (List.length_map _).trans hlabels.symm
  rw [samples, samples, ← zip_filterMap_getElem? hlength]
  refine congrArg (List.zip · _) ?_
  simp only [List.getElem?_map]
  exact List.map_filterMap

include hlabels in
theorem length_samples : ds.samples.length = ds.size := by
  rw [samples, List.length_zip, List.length_map, hlabels]
  exact Nat.min_self _

include horder in
theorem size_select : (ds.select order).size = ds.size := by
  have hlength := length_filterMap_of_isSome fun place => isSome_of_mem_order horder
  exact hlength.trans (horder.length_eq.trans List.length_range)

include hlabels horder

theorem length_labels_select : (ds.select order).labels.length = (ds.select order).size := by
  have horder' : order.Perm (List.range ds.labels.length) := hlabels.symm ▸ horder
  have hlength := length_filterMap_of_isSome fun place => isSome_of_mem_order horder'
  rw [size_select horder]
  exact hlength.trans (horder.length_eq.trans List.length_range)

/-- Nothing is lost and nothing is there twice. -/
theorem samples_select_perm : (ds.select order).samples.Perm ds.samples := by
  have hperm := horder.filterMap (ds.samples[·]?)
  rwa [← samples_select hlabels, ← length_samples hlabels, filterMap_getElem?_range] at hperm

theorem getElem?_samples_select {i place : Nat} (hplace : order[i]? = some place) :
    (ds.select order).samples[i]? = ds.samples[place]? := by
  have horder' : order.Perm (List.range ds.samples.length) := (length_samples hlabels).symm ▸ horder
  rw [samples_select hlabels]
  exact getElem?_filterMap_of_isSome (fun _ => isSome_of_mem_order horder') hplace

/-- Cutting the reordered dataset takes the places in front and those behind. -/
theorem cut_select (count : Nat) :
    (ds.select order).cut count =
      { train := ds.select (order.take count), test := ds.select (order.drop count) } := by
  have horder' : order.Perm (List.range ds.labels.length) := hlabels.symm ▸ horder
  have hrow : ∀ place ∈ order, (ds.features.rows[place]?).isSome :=
    fun _ => isSome_of_mem_order horder
  have hlabel : ∀ place ∈ order, (ds.labels[place]?).isSome :=
    fun _ => isSome_of_mem_order horder'
  have htrain : (ds.select order).features.take count = ds.features.select (order.take count) :=
    congrArg (Table.mk ds.features.width) (take_filterMap_of_isSome hrow count)
  have htest : (ds.select order).features.drop count = ds.features.select (order.drop count) :=
    congrArg (Table.mk ds.features.width) (drop_filterMap_of_isSome hrow count)
  have htrain' : (ds.select order).labels.take count =
      (order.take count).filterMap (ds.labels[·]?) := take_filterMap_of_isSome hlabel count
  have htest' : (ds.select order).labels.drop count =
      (order.drop count).filterMap (ds.labels[·]?) := drop_filterMap_of_isSome hlabel count
  rw [cut, htrain, htest, htrain', htest']
  rfl

end

/-! ## The plain split and the one that shuffles -/

variable [Scalar α]

theorem split_eq (testSize : α) :
    ds.split testSize = (fun t => ds.cut (ds.size - t)) <$> ds.testCount testSize := by
  rw [split]
  cases ds.testCount testSize <;> rfl

/-- A split that shuffles is the plain split of the dataset in the order of the shuffle. -/
theorem shuffledSplit_eq (hlabels : ds.labels.length = ds.size) (seed : UInt64)
    (horder : (Random.shuffled ds.size seed).Perm (List.range ds.size)) (testSize : α) :
    ds.shuffledSplit testSize seed =
      (ds.select (Random.shuffled ds.size seed)).split testSize := by
  have hcount : (ds.select (Random.shuffled ds.size seed)).testCount testSize =
      ds.testCount testSize := by
    rw [testCount, testCount, size_select horder]
  rw [split_eq, hcount, size_select horder, shuffledSplit]
  cases ds.testCount testSize with
  | error fault => rfl
  | ok t => exact congrArg Except.ok (cut_select hlabels horder (ds.size - t)).symm

theorem exists_split_iff {testSize : α} :
    (∃ parts, ds.split testSize = .ok parts) ↔ 0 < testSize ∧ testSize < 1 := by
  rw [split_eq, testCount]
  split
  · next h => exact ⟨fun _ => h, fun _ => ⟨_, rfl⟩⟩
  · next h => exact ⟨fun ⟨_, hparts⟩ => by injection hparts, fun hrange => absurd hrange h⟩

theorem cut_of_split {testSize : α} {parts : Split α} (h : ds.split testSize = .ok parts) :
    (0 < testSize ∧ testSize < 1) ∧
      parts = ds.cut (ds.size - Scalar.roundNat ((ds.size : α) * testSize)) := by
  rw [split_eq, testCount] at h
  split at h
  · next hrange => exact ⟨hrange, (Except.ok.inj h).symm⟩
  · injection h

/-- A split that shuffles takes the rows at the places in front and those behind. -/
theorem shuffledSplit_eq_select {testSize : α} (h : 0 < testSize ∧ testSize < 1)
    (seed : UInt64) :
    let order := Random.shuffled ds.size seed
    let trainCount := ds.size - Scalar.roundNat ((ds.size : α) * testSize)
    ds.shuffledSplit testSize seed =
      .ok { train := ds.select (order.take trainCount)
            test := ds.select (order.drop trainCount) } := by
  rw [shuffledSplit, testCount, if_pos h]
  rfl

theorem select_of_shuffledSplit {testSize : α} {seed : UInt64} {parts : Split α}
    (h : ds.shuffledSplit testSize seed = .ok parts) :
    ∃ train test, parts.train = ds.select train ∧ parts.test = ds.select test := by
  obtain ⟨t, -, h⟩ := exists_of_bind_eq_ok h
  obtain rfl := Except.ok.inj h
  exact ⟨_, _, rfl, rfl⟩

end

/-! ## How many rows are for testing, in exact arithmetic -/

theorem roundNat_eq (v : ℝ) : Scalar.roundNat v = ⌊v + 1 / 2⌋₊ := rfl

theorem roundNat_le {n : Nat} {v : ℝ} (hv : v ≤ n) : Scalar.roundNat v ≤ n := by
  rw [roundNat_eq]
  refine Nat.le_of_lt_succ ((Nat.floor_lt' (Nat.succ_ne_zero n)).2 ?_)
  push_cast
  linarith

theorem roundNat_spec {v : ℝ} (hv : 0 ≤ v) :
    (Scalar.roundNat v : ℝ) - 1 / 2 ≤ v ∧ v < Scalar.roundNat v + 1 / 2 := by
  rw [roundNat_eq]
  have hle := Nat.floor_le (show (0 : ℝ) ≤ v + 1 / 2 by linarith)
  have hlt := Nat.lt_floor_add_one (v + 1 / 2)
  exact ⟨by linarith, by linarith⟩

/-- For each number of rows and each seed there is one permutation, made by exchanges of each
place with one not above it, such that a split that shuffles is the plain split of the dataset
with its rows in that order, each with its own label; and exchanges always make a permutation.
A plain split succeeds exactly for a test size between zero and one. Its parts have all
columns, and their samples, those to fit on first, are those of the dataset. Over exact
arithmetic the part to test on has the nearest number of rows to its share, of two the greater,
and never more than there are. -/
theorem shuffledSplit_eq_split :
    (∀ (draws : Nat → Nat) (n : Nat),
      (Random.exchanged draws (n - 1) (Array.range n)).toList.Perm (List.range n)) ∧
    (∀ (n : Nat) (seed : UInt64), ∃ draws : Nat → Nat, (∀ i, draws i ≤ i) ∧
      let order := (Random.exchanged draws (n - 1) (Array.range n)).toList
      order.Perm (List.range n) ∧
      ∀ (α : Type) [Scalar α] (ds : Dataset α), ds.size = n → ds.labels.length = n →
        let shuffled := ds.select order
        shuffled.features.width = ds.features.width ∧
        shuffled.size = n ∧ shuffled.labels.length = n ∧
        (∀ i place : Nat, order[i]? = some place →
          shuffled.samples[i]? = ds.samples[place]?) ∧
        shuffled.samples.Perm ds.samples ∧
        ∀ testSize, ds.shuffledSplit testSize seed = shuffled.split testSize) ∧
    (∀ (α : Type) [Scalar α] (ds : Dataset α) (testSize : α),
      ((∃ parts, ds.split testSize = .ok parts) ↔ 0 < testSize ∧ testSize < 1) ∧
      ∀ parts, ds.split testSize = .ok parts → ds.labels.length = ds.size →
        parts.train.features.width = ds.features.width ∧
        parts.test.features.width = ds.features.width ∧
        parts.train.labels.length = parts.train.size ∧
        parts.test.labels.length = parts.test.size ∧
        parts.train.samples ++ parts.test.samples = ds.samples) ∧
    ∀ (ds : Dataset ℝ) (testSize : ℝ) (parts : Split ℝ), ds.split testSize = .ok parts →
      ∃ t : Nat, (t : ℝ) - 1 / 2 ≤ ds.size * testSize ∧ ds.size * testSize < t + 1 / 2 ∧
        t ≤ ds.size ∧ parts.test.size = t ∧ parts.train.size = ds.size - t := by
  refine ⟨Random.perm_exchanged_range, fun n seed => ?_, fun α _ ds testSize => ?_, ?_⟩
  · obtain ⟨draws, hdraws, hshuffled⟩ := Random.exists_exchanged n seed
    have horder := Random.perm_exchanged_range draws n
    refine ⟨draws, hdraws, horder, fun α _ ds hsize hlabels => ?_⟩
    subst hsize
    refine ⟨rfl, size_select horder, ?_, ?_, samples_select_perm hlabels horder, ?_⟩
    · rw [length_labels_select hlabels horder, size_select horder]
    · exact fun _ _ => getElem?_samples_select hlabels horder
    · -- The split knows the order as the shuffle of the seed.
      rw [← hshuffled] at horder ⊢
      exact ds.shuffledSplit_eq hlabels seed horder
  · refine ⟨ds.exists_split_iff, fun parts h hlabels => ?_⟩
    obtain ⟨-, rfl⟩ := ds.cut_of_split h
    obtain ⟨htrain, htest⟩ := ds.samples_cut
      (ds.size - Scalar.roundNat ((ds.size : α) * testSize))
    obtain ⟨htrainSize, htestSize⟩ := ds.size_cut
      (ds.size - Scalar.roundNat ((ds.size : α) * testSize))
    refine ⟨rfl, rfl, ?_, ?_, ?_⟩
    · rw [htrainSize, ← hlabels]
      exact List.length_take
    · rw [htestSize, ← hlabels]
      exact List.length_drop
    · rw [htrain, htest, List.take_append_drop]
  · intro ds testSize parts h
    obtain ⟨⟨hpos, hlt⟩, rfl⟩ := ds.cut_of_split h
    have hsize : (0 : ℝ) ≤ ds.size := Nat.cast_nonneg _
    have hle : Scalar.roundNat ((ds.size : ℝ) * testSize) ≤ ds.size :=
      roundNat_le (mul_le_of_le_one_right hsize hlt.le)
    obtain ⟨hlower, hupper⟩ := roundNat_spec (mul_nonneg hsize hpos.le)
    obtain ⟨htrain, htest⟩ := ds.size_cut
      (ds.size - Scalar.roundNat ((ds.size : ℝ) * testSize))
    refine ⟨_, hlower, hupper, hle, ?_, ?_⟩
    · rw [htest, Nat.sub_sub_self hle]
    · rw [htrain, Nat.min_eq_left (Nat.sub_le _ _)]

end Dataset

end RidgeLogistic
