import RidgeLogistic.Random.Stream
import RidgeLogistic.Scalar

/-!
# Normal draws

Standard normal numbers by the ziggurat method. The area under the right half of the
curve `exp (-x²/2)` is covered by 256 layers of equal size, the lowest of which
includes the tail. A draw picks a layer and a place in it. Most places lie under the
curve for sure; at the edge of a layer the height decides, and beyond the edge of the
lowest one the tail is drawn from by itself.
-/

namespace RidgeLogistic.Random

variable {α : Type} [Scalar α]

/-- The curve, which is one at its top. -/
def bell (x : α) : α :=
  Scalar.exp (-x * x / 2.0)

/-- The right edges of the layers from the lowest up, and the heights of the curve
there. -/
structure Ziggurat (α : Type) where
  edges : Array α
  heights : Array α

namespace Ziggurat

def tailStart : α := 3.654152885361008796

def layerArea : α := 0.00492867323399

/-- The edges that follow an edge, each where the layer above the last one has the
area of a layer. -/
def edgesAfter : Nat → α → List α
  | 0, _ => []
  | n + 1, x =>
    let next := Scalar.sqrt (-2.0 * Scalar.log (layerArea / x + bell x))
    next :: edgesAfter n next

/-- The 256 layers, closed by an edge of zero at the top. The lowest layer is as wide as
its area demands with the height of the curve at the tail. -/
def layers : Ziggurat α :=
  let edges : List α :=
    layerArea / bell tailStart :: tailStart :: edgesAfter 254 tailStart ++ [0]
  { edges := edges.toArray, heights := (edges.map bell).toArray }

/-- A word as a number from zero up to one, from its upper 52 bits. -/
def fraction (w : UInt64) : α :=
  ((w >>> 12).toNat : α) / ((1 <<< 52 : Nat) : α)

def openFraction (w : UInt64) : α :=
  (((w >>> 12).toNat : α) + (0.5 : α)) / ((1 <<< 52 : Nat) : α)

/-- Draws the distance beyond `tailStart` in the tail, at most `left` times. -/
def tail : Nat → Draw α
  | 0 => return 0
  | left + 1 => do
    let x := Scalar.log (openFraction (← Draw.longWord)) / tailStart
    let y := Scalar.log (openFraction (← Draw.longWord))
    if -2.0 * y < x * x then tail left else return x

/-- How many places in a row may be refused. About one in a hundred is, so that chance
never comes to the end. -/
def refusals : Nat := 1000

/-- Draws a normal number, picking a place at most `left` times. -/
def drawWithin (z : Ziggurat α) : Nat → Draw α
  | 0 => return 0
  | left + 1 => do
    let bits ← Draw.longWord
    let layer := (bits &&& 255).toNat
    let side : α := fraction bits * 2.0 - 1
    let x := side * z.edges.getD layer 0
    let size := if x < 0 then -x else x
    if size < z.edges.getD (layer + 1) 0 then
      return x
    else if layer = 0 then
      let beyond ← tail refusals
      return if side < 0 then beyond - tailStart else tailStart - beyond
    else
      let lower := z.heights.getD layer 0
      let upper := z.heights.getD (layer + 1) 0
      let height := (((← Draw.longWord) >>> 11).toNat : α) / ((1 <<< 53 : Nat) : α)
      if upper + (lower - upper) * height < bell x then return x
      else z.drawWithin left

def draw (z : Ziggurat α) : Draw α :=
  z.drawWithin refusals

end Ziggurat

end RidgeLogistic.Random
