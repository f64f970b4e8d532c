import RidgeLogistic.Random.Stream

/-!
# Seeded shuffles

The order of a shuffle is made by exchanges: going down from the last place, each
place is exchanged with a drawn one that is not above it. A drawn place is the high
half of a word times the number of places, which is exactly fair once the words
whose low half exceeds the largest multiple of that number are passed over.
-/

namespace RidgeLogistic.Random

/-- How many words in a row may be passed over. Each is with probability less than one
half, so that chance never comes to the end. -/
def refusals : Nat := 1000

/-- Draws a number below `count`, which has to be positive and fit a word. -/
def Draw.below (count : Nat) : Draw Nat :=
  let zone := count <<< (31 - Nat.log2 count) - 1
  let rec attempt : Nat → Draw Nat
    | 0 => return 0
    | left + 1 => do
      let product := (← word).toNat * count
      if product % (1 <<< 32) ≤ zone then return product >>> 32 else attempt left
  attempt refusals

/-- Exchanges the place `i` with a drawn one, then the places below it in turn, down to
the first but one. -/
def exchange (order : Array Nat) : Nat → Draw (Array Nat)
  | 0 => return order
  | i + 1 => do
    let j ← Draw.below (i + 2)
    exchange (order.swapIfInBounds (i + 1) j) i

/-- The numbers below `n` in the order that a seed gives them. -/
def shuffled (n : Nat) (seed : UInt64) : List Nat :=
  ((exchange (Array.range n) (n - 1)).run (.ofSeed seed)).1.toList

end RidgeLogistic.Random
