import Annealing.Problem

/-!
# A walk on a ring of states

The states `0, …, n - 1` stand in a ring, each with a given energy. A walk starts at a
uniform state and moves, on a fair coin, to the next state or the previous one. The ring
needs at least one state; on an empty ring the start stops abnormally.
-/

namespace Annealing.Problems

open Annealing.Random

/-- A ring of states with the given energies. -/
def ring (energies : Array Float) : Problem Unit Nat where
  randomSolution := Eval.below 0 energies.size
  energy k := Eval.at_ energies k
  neighbor k := do
    let n := energies.size
    if ← Eval.draw Stream.coin then pure ((k + 1) % n) else pure ((k + n - 1) % n)

end Annealing.Problems
