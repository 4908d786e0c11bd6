import Annealing.Problem

/-!
# Problems driven by a shared counter

These problems draw nothing from the stream: their solutions come from a counter kept in the
shared bookkeeping, so what one worker gets depends on what the others took before it.

* `scripted` hands out the counter's values as solutions, both as starts and as neighbours;
  solution `k` has energy `(7919 k + 13) mod 1009`.
* `coldLadder` starts at `(7919 k + 500) mod 1000` for the `k`-th start, moves one rung up,
  and has its rung as energy: every move is uphill.
-/

namespace Annealing.Problems

/-- Takes the counter's value and advances it. -/
def takeNext : Eval Nat Nat :=
  Eval.bump fun n => (n, n + 1)

/-- Solutions handed out by a counter. -/
def scripted : Problem Nat Nat where
  randomSolution := takeNext
  energy k := pure ((k * 7919 + 13) % 1009).toFloat
  neighbor _ := takeNext

/-- A ladder whose every move is one rung up. -/
def coldLadder : Problem Nat Int where
  randomSolution := do
    let k ← takeNext
    pure ((k * 7919 + 500) % 1000 : Nat)
  energy x := pure (Float.ofInt x)
  neighbor x := pure (x + 1)

end Annealing.Problems
