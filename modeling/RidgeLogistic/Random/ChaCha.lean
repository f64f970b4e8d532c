/-!
# The ChaCha permutation with twelve rounds

A block of sixteen words is made from a key of eight words and a block counter: the
words go through six double rounds, and the initial words are added to what comes out.
All arithmetic is that of 32-bit words.
-/

namespace RidgeLogistic.Random.ChaCha

/-- Sixteen words, as a square of four by four read row by row. -/
abbrev Block := Vector UInt32 16

/-- Rotates the bits of a word to the left, by a number of places strictly between
zero and the width. -/
def rotateLeft (w : UInt32) (places : UInt32) : UInt32 :=
  (w <<< places) ||| (w >>> (32 - places))

/-- Adds the word at `y` to the one at `x`, and stirs the sum into the word at `z`. -/
def stir (x y z : Fin 16) (places : UInt32) (s : Block) : Block :=
  let sum := s[x] + s[y]
  (s.set x sum).set z (rotateLeft (s[z] ^^^ sum) places)

/-- The four steps on the words of one column or diagonal. -/
def quarterRound (s : Block) (a b c d : Fin 16) : Block :=
  s |> stir a b d 16 |> stir c d b 12 |> stir a b d 8 |> stir c d b 7

/-- The quarter rounds on the columns and then on the diagonals. -/
def doubleRound (s : Block) : Block :=
  let s := quarterRound s 0 4 8 12
  let s := quarterRound s 1 5 9 13
  let s := quarterRound s 2 6 10 14
  let s := quarterRound s 3 7 11 15
  let s := quarterRound s 0 5 10 15
  let s := quarterRound s 1 6 11 12
  let s := quarterRound s 2 7 8 13
  quarterRound s 3 4 9 14

/-- The words that a block starts from: four constants, the key, the counter with its
low word first, and two zeros. -/
def initial (key : Vector UInt32 8) (counter : UInt64) : Block :=
  #v[0x61707865, 0x3320646e, 0x79622d32, 0x6b206574,
    key[0], key[1], key[2], key[3], key[4], key[5], key[6], key[7],
    counter.toUInt32, (counter >>> 32).toUInt32, 0, 0]

def block (key : Vector UInt32 8) (counter : UInt64) : Block :=
  let start := initial key counter
  let mixed := (List.range 6).foldl (fun s _ => doubleRound s) start
  start.zipWith (· + ·) mixed

end RidgeLogistic.Random.ChaCha
