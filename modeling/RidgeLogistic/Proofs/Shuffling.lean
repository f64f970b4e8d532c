import RidgeLogistic.Random.Shuffle

/-!
# Shuffles are permutations

The order of a shuffle depends on a stream of words, and how the words come about does not
matter here. `exchanged` makes the same exchanges with the draws given as a function: whatever
they are, its result has the entries of what it started from (`exchanged_perm`). The shuffle
of a seed is such an order, and each of its draws is a place that is not above the one it is
drawn for (`exists_exchanged`).
-/

namespace RidgeLogistic.Random

/-! ## The exchanges -/

/-- Exchanges each place from `i` down to the first but one with the place drawn for it. -/
def exchanged (draws : Nat → Nat) : Nat → Array Nat → Array Nat
  | 0, order => order
  | i + 1, order => exchanged draws i (order.swapIfInBounds (i + 1) (draws (i + 1)))

theorem swapIfInBounds_perm (order : Array Nat) (i j : Nat) :
    (order.swapIfInBounds i j).Perm order := by
  rw [Array.swapIfInBounds]
  split
  · split
    · exact Array.swap_perm _ _
    · exact .refl _
  · exact .refl _

theorem exchanged_perm (draws : Nat → Nat) (i : Nat) (order : Array Nat) :
    (exchanged draws i order).Perm order := by
  induction i generalizing order with
  | zero => exact .refl _
  | succ i ih => exact (ih _).trans (swapIfInBounds_perm order _ _)

theorem exchanged_congr {draws draws' : Nat → Nat} {i : Nat}
    (h : ∀ k ≤ i, draws k = draws' k) (order : Array Nat) :
    exchanged draws i order = exchanged draws' i order := by
  induction i generalizing order with
  | zero => rfl
  | succ i ih =>
      rw [exchanged, exchanged, h (i + 1) (Nat.le_refl _)]
      exact ih (fun k hk => h k (Nat.le_succ_of_le hk)) _

/-! ## The draws -/

theorem Draw.attempt_lt {count : Nat} (hcount : 0 < count) (zone left : Nat) (s : Stream) :
    ((below.attempt count zone left).run s).1 < count := by
  induction left generalizing s with
  | zero => exact hcount
  | succ left ih =>
      generalize hw : Stream.next s = drawn
      let product := drawn.1.toNat * count
      -- A word times the number of places is below as many times the range of a word.
      have hproduct : product >>> 32 < count := by
        rw [Nat.shiftRight_eq_div_pow]
        exact Nat.div_lt_of_lt_mul (Nat.mul_lt_mul_of_pos_right (UInt32.toNat_lt _) hcount)
      have hattempt : (below.attempt count zone (left + 1)).run s =
          (if product % (1 <<< 32) ≤ zone then pure (product >>> 32)
            else below.attempt count zone left : Draw Nat).run drawn.2 := by
        subst hw
        rfl
      rw [hattempt]
      split
      · exact hproduct
      · exact ih _

theorem Draw.below_lt {count : Nat} (hcount : 0 < count) (s : Stream) :
    ((below count).run s).1 < count :=
  attempt_lt hcount _ _ s

/-- The draws of a stream make exchanges that any draws could make which keep below their
places. -/
theorem exists_exchanged_exchange (order : Array Nat) (i : Nat) (s : Stream) :
    ∃ draws : Nat → Nat, (∀ k, draws k ≤ k) ∧
      ((exchange order i).run s).1 = exchanged draws i order := by
  induction i generalizing order s with
  | zero => exact ⟨fun _ => 0, Nat.zero_le, rfl⟩
  | succ i ih =>
      let j := ((Draw.below (i + 2)).run s).1
      have hj : j ≤ i + 1 := Nat.le_of_lt_succ (Draw.below_lt (Nat.succ_pos _) s)
      obtain ⟨draws, hdraws, hrest⟩ :=
        ih (order.swapIfInBounds (i + 1) j) ((Draw.below (i + 2)).run s).2
      refine ⟨fun k => if k = i + 1 then j else draws k, fun k => ?_, ?_⟩
      · dsimp only
        split
        · next hk => rw [hk]; exact hj
        · exact hdraws k
      · rw [exchanged, if_pos rfl]
        refine Eq.trans hrest (exchanged_congr (fun k hk => ?_) _)
        rw [if_neg (Nat.ne_of_lt (Nat.lt_succ_of_le hk))]

theorem exists_exchanged (n : Nat) (seed : UInt64) :
    ∃ draws : Nat → Nat, (∀ k, draws k ≤ k) ∧
      shuffled n seed = (exchanged draws (n - 1) (Array.range n)).toList := by
  obtain ⟨draws, hdraws, h⟩ := exists_exchanged_exchange (Array.range n) (n - 1) (.ofSeed seed)
  exact ⟨draws, hdraws, congrArg Array.toList h⟩

/-- Whatever the draws are, no number is lost and none is there twice. -/
theorem perm_exchanged_range (draws : Nat → Nat) (n : Nat) :
    (exchanged draws (n - 1) (Array.range n)).toList.Perm (List.range n) := by
  have h := (exchanged_perm draws (n - 1) (Array.range n)).toList
  rwa [Array.toList_range] at h

theorem perm_shuffled (n : Nat) (seed : UInt64) : (shuffled n seed).Perm (List.range n) := by
  obtain ⟨draws, -, h⟩ := exists_exchanged n seed
  rw [h]
  exact perm_exchanged_range draws n

end RidgeLogistic.Random
