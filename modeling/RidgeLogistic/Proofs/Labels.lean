import RidgeLogistic.Label

/-!
# Reading labels

Reading goes through a list entry by entry and stops at the first that is no label. So what is
read is each entry decoded (`Label.readFrom_eq_ok_iff`), and what is refused has a first such
entry, after entries that are all labels (`Label.readFrom_eq_error_iff`). Neither asks anything
of the arithmetic.

That labels can be read back from their values does. A label is recognised by the equality
test, and there are arithmetics in which that is no equality: zero of either sign is equal to
the other, and what is undefined is not equal to itself. `LawfulLabels` says that the values of
the two labels are not among these.
-/

namespace RidgeLogistic

/-- An arithmetic that tells the values of the two labels from each other and from all else. -/
class LawfulLabels (α : Type) [Scalar α] : Prop where
  beq_one_iff : ∀ v : α, (v == 1) = true ↔ v = 1
  beq_neg_one_iff : ∀ v : α, (v == -1) = true ↔ v = -1
  neg_one_ne_one : (-1 : α) ≠ 1

namespace Label

/-! ## Lists -/

section

variable {α : Type} {decode : α → Option Label}

theorem readFrom_eq_ok_iff {index : Nat} {ys : List α} {labels : List Label} :
    readFrom decode index ys = .ok labels ↔ ys.map decode = labels.map some := by
  induction ys generalizing index labels with
  | nil =>
      rw [readFrom, List.map_nil, eq_comm (a := []), List.map_eq_nil_iff]
      exact ⟨fun h => (Except.ok.inj h).symm, fun h => h ▸ rfl⟩
  | cons v ys ih =>
      rw [readFrom, List.map_cons]
      cases hv : decode v with
      | none =>
          refine iff_of_false (fun h => by injection h) fun h => ?_
          cases labels with
          | nil => injection h
          | cons label labels => injection h with h; injection h
      | some label =>
          show (readFrom decode (index + 1) ys).map (label :: ·) = _ ↔ _
          constructor
          · intro h
            obtain ⟨rest, hrest, rfl⟩ := exists_of_map_eq_ok h
            rw [List.map_cons, ih.1 hrest]
          · intro h
            cases labels with
            | nil => injection h
            | cons first labels =>
                injection h with hfirst hrest
                injection hfirst with hfirst
                rw [ih.2 hrest, hfirst]
                rfl

theorem exists_readFrom_iff {index : Nat} {ys : List α} :
    (∃ labels, readFrom decode index ys = .ok labels) ↔ ∀ v ∈ ys, (decode v).isSome := by
  simp only [readFrom_eq_ok_iff]
  constructor
  · rintro ⟨labels, h⟩ v hv
    obtain ⟨label, -, hlabel⟩ := List.mem_map.1 (h ▸ List.mem_map_of_mem hv)
    rw [← hlabel]
    rfl
  · intro h
    induction ys with
    | nil => exact ⟨[], rfl⟩
    | cons v ys ih =>
        obtain ⟨labels, hlabels⟩ := ih fun u hu => h u (List.mem_cons_of_mem _ hu)
        obtain ⟨label, hlabel⟩ := Option.isSome_iff_exists.1 (h v List.mem_cons_self)
        exact ⟨label :: labels, by rw [List.map_cons, List.map_cons, hlabels, hlabel]⟩

/-- The entry at an index fails a condition that all entries before it meet. -/
def FirstFailing (good : α → Prop) (ys : List α) (index : Nat) (v : α) : Prop :=
  ∃ before after, ys = before ++ v :: after ∧ before.length = index ∧
    (∀ u ∈ before, good u) ∧ ¬good v

theorem readFrom_append {before after : List α} {v : α}
    (hbefore : ∀ u ∈ before, (decode u).isSome) (hv : ¬(decode v).isSome) (index : Nat) :
    readFrom decode index (before ++ v :: after) = .error (.label (index + before.length) v) := by
  induction before generalizing index with
  | nil =>
      rw [List.nil_append, readFrom, Option.not_isSome_iff_eq_none.1 hv]
      rfl
  | cons u before ih =>
      obtain ⟨label, hu⟩ := Option.isSome_iff_exists.1 (hbefore u List.mem_cons_self)
      rw [List.cons_append, readFrom, hu]
      show (readFrom decode (index + 1) (before ++ v :: after)).map (label :: ·) = _
      rw [ih (fun u hu => hbefore u (List.mem_cons_of_mem _ hu)), List.length_cons,
        Nat.add_right_comm]
      rfl

/-- What is refused is so for its first entry that is no label. -/
theorem readFrom_eq_error_iff {ys : List α} {fault : Error α} :
    readFrom decode 0 ys = .error fault ↔
      ∃ index v, FirstFailing (fun u => (decode u).isSome) ys index v ∧
        fault = .label index v := by
  constructor
  · intro h
    cases hfind : ys.find? fun v => (decode v).isNone with
    | none =>
        have hall : ∀ v ∈ ys, (decode v).isSome := by
          simpa [Option.isSome_iff_ne_none] using hfind
        obtain ⟨labels, hlabels⟩ := exists_readFrom_iff.2 hall
        rw [hlabels] at h
        injection h
    | some v =>
        obtain ⟨hv, before, after, rfl, hbefore⟩ := List.find?_eq_some_iff_append.1 hfind
        replace hbefore : ∀ u ∈ before, (decode u).isSome := by simpa using hbefore
        replace hv : ¬(decode v).isSome := by simpa using hv
        rw [readFrom_append hbefore hv, Nat.zero_add] at h
        exact ⟨_, v, ⟨before, after, rfl, rfl, hbefore, hv⟩, (Except.error.inj h).symm⟩
  · rintro ⟨_, v, ⟨before, after, rfl, rfl, hbefore, hv⟩, rfl⟩
    rw [readFrom_append hbefore hv, Nat.zero_add]

end

/-! ## The two encodings -/

section

variable {α : Type} [Scalar α]

/-- The value compares equal to that of one of the two labels. -/
def IsSign (v : α) : Prop :=
  (v == 1) = true ∨ (v == -1) = true

/-- The value compares equal to zero or one. -/
def IsBit (v : α) : Prop :=
  (v == 0) = true ∨ (v == 1) = true

theorem isSome_ofSign?_iff {v : α} : (ofSign? v).isSome ↔ IsSign v := by
  rw [ofSign?]
  split
  · next h => exact iff_of_true rfl (Or.inl h)
  · next h =>
      split
      · next h' => exact iff_of_true rfl (Or.inr h')
      · next h' => exact iff_of_false (by simp) (not_or.2 ⟨h, h'⟩)

theorem isSome_ofBit?_iff {v : α} : (ofBit? v).isSome ↔ IsBit v := by
  rw [ofBit?]
  split
  · next h => exact iff_of_true rfl (Or.inr h)
  · next h =>
      split
      · next h' => exact iff_of_true rfl (Or.inl h')
      · next h' => exact iff_of_false (by simp) (not_or.2 ⟨h', h⟩)

theorem exists_readSigns_iff {ys : List α} :
    (∃ labels, readSigns ys = .ok labels) ↔ ∀ v ∈ ys, IsSign v := by
  simp only [readSigns, exists_readFrom_iff, isSome_ofSign?_iff]

theorem exists_readBits_iff {ys : List α} :
    (∃ labels, readBits ys = .ok labels) ↔ ∀ v ∈ ys, IsBit v := by
  simp only [readBits, exists_readFrom_iff, isSome_ofBit?_iff]

theorem readSigns_eq_error_iff {ys : List α} {fault : Error α} :
    readSigns ys = .error fault ↔
      ∃ index v, FirstFailing IsSign ys index v ∧ fault = .label index v := by
  simp only [readSigns, readFrom_eq_error_iff, isSome_ofSign?_iff]

theorem readBits_eq_error_iff {ys : List α} {fault : Error α} :
    readBits ys = .error fault ↔
      ∃ index v, FirstFailing IsBit ys index v ∧ fault = .label index v := by
  simp only [readBits, readFrom_eq_error_iff, isSome_ofBit?_iff]

theorem ofBit?_eq_some_positive_iff {v : α} : ofBit? v = some positive ↔ (v == 1) = true := by
  rw [ofBit?]
  split
  · next h => exact iff_of_true rfl h
  · next h =>
      refine iff_of_false ?_ h
      split <;> simp

variable [LawfulLabels α]

theorem IsSign.eq_or_eq {v : α} (h : IsSign v) : v = -1 ∨ v = 1 :=
  h.symm.imp (LawfulLabels.beq_neg_one_iff v).1 (LawfulLabels.beq_one_iff v).1

theorem ofSign?_value (label : Label) : ofSign? (label.value : α) = some label := by
  have hone := (LawfulLabels.beq_one_iff (1 : α)).2 rfl
  have hneg := (LawfulLabels.beq_neg_one_iff (-1 : α)).2 rfl
  have hne : ¬((-1 : α) == 1) = true :=
    fun h => LawfulLabels.neg_one_ne_one ((LawfulLabels.beq_one_iff _).1 h)
  rw [ofSign?]
  cases label with
  | positive => exact if_pos hone
  | negative => exact (if_neg hne).trans (if_pos hneg)

theorem value_injective : Function.Injective (value : Label → α) := by
  intro a b h
  have ha := ofSign?_value (α := α) a
  rw [h, ofSign?_value] at ha
  injection ha with ha
  exact ha.symm

theorem value_of_ofSign? {v : α} {label : Label} (h : ofSign? v = some label) :
    label.value = v := by
  rw [ofSign?] at h
  split at h
  · next hone =>
      injection h with h
      rw [← h, (LawfulLabels.beq_one_iff v).1 hone]
      rfl
  · split at h
    · next hneg =>
        injection h with h
        rw [← h, (LawfulLabels.beq_neg_one_iff v).1 hneg]
        rfl
    · injection h

theorem readFrom_map_value (index : Nat) (labels : List Label) :
    readFrom ofSign? index (labels.map fun label => (label.value : α)) = .ok labels := by
  rw [readFrom_eq_ok_iff, List.map_map]
  exact List.map_congr_left fun label _ => ofSign?_value label

theorem map_value_of_readFrom {index : Nat} {ys : List α} {labels : List Label}
    (h : readFrom ofSign? index ys = .ok labels) : labels.map value = ys := by
  rw [readFrom_eq_ok_iff] at h
  apply List.ext_getElem?
  intro i
  have hentry := congrArg (·[i]?) h
  simp only [List.getElem?_map] at hentry ⊢
  cases hv : ys[i]? with
  | none =>
      rw [hv] at hentry
      rw [Option.map_eq_none_iff.1 hentry.symm]
      rfl
  | some v =>
      rw [hv] at hentry
      obtain ⟨label, hlabel, hread⟩ := Option.map_eq_some_iff.1 hentry.symm
      rw [hlabel]
      exact congrArg some (value_of_ofSign? hread.symm)

end

end Label

end RidgeLogistic
