import RidgeLogistic.Random.ChaCha

/-!
# Seeded random words

A seed is spread over a key by a congruential generator with a permuted output, and
the words of the key's blocks, in order, are the stream. What draws from it is a state
computation, so the same seed gives the same draws in the same order.
-/

namespace RidgeLogistic.Random

/-- What is left of a stream: the words not yet taken from the last block, and the
counter of the next one. -/
structure Stream where
  key : Vector UInt32 8
  counter : UInt64
  pending : List UInt32

abbrev Draw (β : Type) := StateM Stream β

/-- The word that a state of the seeding generator puts out: it is folded to half its
size and rotated to the right by its top five bits. -/
def seedWord (s : UInt64) : UInt32 :=
  let folded := (((s >>> 18) ^^^ s) >>> 27).toUInt32
  let places := (s >>> 59).toUInt32
  (folded >>> places) ||| (folded <<< ((32 - places) % 32))

/-- The states of the seeding generator that follow a seed. -/
def seedStates : Nat → UInt64 → List UInt64
  | 0, _ => []
  | n + 1, s =>
    let next := s * 6364136223846793005 + 11634580027462260723
    next :: seedStates n next

def Stream.ofSeed (seed : UInt64) : Stream where
  key := Vector.ofFn fun i => seedWord ((seedStates 8 seed).getD i 0)
  counter := 0
  pending := []

/-- The next word of a stream, and what is left then. -/
def Stream.next (s : Stream) : UInt32 × Stream :=
  match s.pending with
  | w :: rest => (w, { s with pending := rest })
  | [] =>
    let block := ChaCha.block s.key s.counter
    (block[0], { s with counter := s.counter + 1, pending := block.toList.tail })

namespace Draw

def word : Draw UInt32 :=
  Stream.next

/-- Draws one word of 64 bits, its low half first. -/
def longWord : Draw UInt64 := do
  let low ← word
  let high ← word
  return low.toUInt64 ||| (high.toUInt64 <<< 32)

/-- Draws a list of the given length, entry by entry. -/
def list {β : Type} (draw : Draw β) : Nat → Draw (List β)
  | 0 => return []
  | n + 1 => do
    let b ← draw
    let rest ← list draw n
    return b :: rest

end Draw

end RidgeLogistic.Random
