import Annealing.Problem

/-!
# Minimising the squared norm in `dim` dimensions

A solution is a point with coordinates drawn uniformly from `[-5, 5)`; a move picks one
coordinate uniformly and shifts it by a uniform amount in `[-0.5, 0.5)`. The energy is the
sum of the squared coordinates, summed from `-0.0`, so the empty sum is `-0.0`. With no
coordinates there is no coordinate to move, and a move stops abnormally.
-/

namespace Annealing.Problems

open Annealing.Random

/-- The sum of the squares, added up from `-0.0` in order. -/
def sumSquares (xs : Array Float) : Float :=
  xs.foldl (fun acc x => acc + x * x) (-0.0)

/-- The squared norm in `dim` dimensions. -/
def sphere (dim : Nat) : Problem Unit (Array Float) where
  randomSolution := do
    let mut xs := #[]
    for _ in [0:dim] do
      xs := xs.push (← Eval.draw (Stream.between (-5.0) 5.0))
    pure xs
  energy xs := pure (sumSquares xs)
  neighbor xs := do
    let i ← Eval.below 0 dim
    let d ← Eval.draw (Stream.between (-0.5) 0.5)
    pure (xs.modify i (· + d))

end Annealing.Problems
