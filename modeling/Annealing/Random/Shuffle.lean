import Annealing.Random.Draw

/-!
# Shuffling with few draws

A Fisher–Yates shuffle walks the positions `i = 0, 1, …` and swaps position `i` with a
uniform position in `[0, i]`. Drawing every such index separately wastes most of a word, so
the indices are packed: one draw below `m · (m + 1) ⋯ (m + c - 1)`, the largest such product
that fits in 32 bits, is read as `c` digits of mixed radix `m, m + 1, …`, each digit a
uniform index for one position. The `Chooser` holds the undigested part of the draw.

The first index, in `[0, 0]`, needs no draw, and a sequence of fewer than two elements is
left as it is without drawing.
-/

namespace Annealing.Random

/-- The largest product `m · (m + 1) ⋯` below `2^32` with at least one factor, and the
number of its factors; the product is at least `m`. -/
def chunkBound (m : Nat) (product : Nat := m) (current : Nat := m + 1) : Nat × Nat :=
  if h : product * current < Nat.pow 2 32 ∧ product < product * current then
    chunkBound m (product * current) (current + 1)
  else (product, current - m)
termination_by Nat.pow 2 32 - product
decreasing_by omega

/-- The state of the packed index draws: how many indices were handed out, the undigested
draw, and how many digits it still holds. -/
structure Chooser where
  count : Nat
  chunk : Nat
  remaining : Nat

namespace Chooser

/-- The chooser before the first index: the first index is always 0. -/
def start : Chooser := ⟨0, 0, 1⟩

/-- The next index, uniform in `[0, count]`. -/
def next (c : Chooser) (g : Stream) : Nat × Chooser × Stream :=
  let radix := c.count + 1
  let (chunk, remaining, g) :=
    if c.remaining = 0 then
      let (bound, digits) := chunkBound radix
      let (chunk, g) := g.scaled 32 bound
      (chunk, digits - 1, g)
    else (c.chunk, c.remaining - 1, g)
  if remaining = 0 then (chunk, ⟨radix, chunk, 0⟩, g)
  else (chunk % radix, ⟨radix, chunk / radix, remaining⟩, g)

end Chooser

namespace Stream

/-- Shuffles `xs`: position `i` is swapped with a uniform index in `[0, i]`, for every `i`
in order. -/
def shuffle {α : Type} (xs : Array α) (g : Stream) : Array α × Stream :=
  if xs.size ≤ 1 then (xs, g)
  else
    let (xs, _, g) := (List.range xs.size).foldl
      (fun (acc : Array α × Chooser × Stream) i =>
        let (xs, c, g) := acc
        let (j, c, g) := c.next g
        (xs.swapIfInBounds i j, c, g))
      (xs, Chooser.start, g)
    (xs, g)

end Stream

end Annealing.Random
