import Annealing.Problem

/-!
# Problems on permutations

Both problems start from a shuffled `0, …, n - 1` and move by swapping two positions drawn
uniformly (possibly the same one).

* `sorting n` counts the positions that do not hold their own index; a final solution is
  valid when it is a permutation of `0, …, n - 1`.
* `tour d` is an open path through the cities of the distance table `d`: the sum, from
  `-0.0`, of the distances between consecutive cities. A ragged table can be read outside
  a row, which stops abnormally.
-/

namespace Annealing.Problems

open Annealing.Random

/-- A shuffled `0, …, n - 1`. -/
def shuffledRange {σ : Type} (n : Nat) : Eval σ (Array Nat) :=
  Eval.draw (Stream.shuffle (Array.range n))

/-- Swaps two positions drawn uniformly from `[0, n)`. -/
def swapTwo {σ : Type} (n : Nat) (p : Array Nat) : Eval σ (Array Nat) := do
  let i ← Eval.below 0 n
  let j ← Eval.below 0 n
  pure (p.swapIfInBounds i j)

/-- The number of positions that do not hold their own index. -/
def misplaced (p : Array Nat) : Nat :=
  p.size.fold (fun i h n => if p[i] = i then n else n + 1) 0

/-- Whether `p` is a permutation of `0, …, p.size - 1`. -/
def isPermutation (p : Array Nat) : Bool :=
  p.toList.mergeSort (· ≤ ·) == List.range p.size

/-- Sorting `0, …, n - 1` by swaps. -/
def sorting (n : Nat) : Problem Unit (Array Nat) where
  randomSolution := shuffledRange n
  energy p := pure (misplaced p).toFloat
  neighbor := swapTwo n
  validate p := p.size == n && isPermutation p

/-- The length of the open path `t` under the table `d`, summed from `-0.0`. -/
def pathLength {σ : Type} (d : Array (Array Float)) (t : Array Nat) : Eval σ Float := do
  let mut total := -0.0
  for k in [1:t.size] do
    let a ← Eval.at_ t (k - 1)
    let b ← Eval.at_ t k
    let row ← Eval.at_ d a
    total := total + (← Eval.at_ row b)
  pure total

/-- The shortest open path through the cities of `d`. -/
def tour (d : Array (Array Float)) : Problem Unit (Array Nat) where
  randomSolution := shuffledRange d.size
  energy := pathLength d
  neighbor := swapTwo d.size

end Annealing.Problems
