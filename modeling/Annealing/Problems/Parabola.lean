import Annealing.Problem

/-!
# Minimising `x²` on the real line

The parabola starts uniformly in `[-10, 10)` and moves by a uniform step in `[-1, 1)`; its
energy is `x²` and a final solution is valid when finite. Its variants count their calls in
shared bookkeeping and misbehave on purpose once a count is reached:

* `counting` counts neighbour draws;
* `failingEnergy n` reports an error from the `n`-th energy call on (counting from 0);
* `nanEnergy n` gives a NaN energy from the `n`-th call on;
* `failingStart n` reports an error from the `n`-th random solution on, and counts energy
  calls.

A failing call is counted too.
-/

namespace Annealing.Problems

open Annealing.Random

/-- A uniform start in `[-10, 10)`. -/
def parabolaStart {σ : Type} : Eval σ Float :=
  Eval.draw (Stream.between (-10.0) 10.0)

/-- A uniform step in `[-1, 1)`. -/
def parabolaStep {σ : Type} (x : Float) : Eval σ Float := do
  pure (x + (← Eval.draw (Stream.between (-1.0) 1.0)))

/-- `x²` on the real line. -/
def parabola : Problem Unit Float where
  randomSolution := parabolaStart
  energy x := pure (x * x)
  neighbor := parabolaStep
  validate x := x.isFinite

/-- The parabola, counting neighbour draws. -/
def counting : Problem Nat Float where
  randomSolution := parabolaStart
  energy x := pure (x * x)
  neighbor x := do
    Eval.bump fun n => ((), n + 1)
    parabolaStep x

/-- The message of a failing energy or start. -/
def evaluationFailed : String := "energy evaluation failed"

/-- The parabola whose energy calls fail from call `after` on. -/
def failingEnergy (after : Nat) : Problem Nat Float where
  randomSolution := parabolaStart
  energy x := do
    let n ← Eval.bump fun n => (n, n + 1)
    if n ≥ after then Eval.fail evaluationFailed else pure (x * x)
  neighbor := parabolaStep

/-- The parabola whose energy is NaN from call `after` on. -/
def nanEnergy (after : Nat) : Problem Nat Float where
  randomSolution := parabolaStart
  energy x := do
    let n ← Eval.bump fun n => (n, n + 1)
    pure (if n ≥ after then 0.0 / 0.0 else x * x)
  neighbor := parabolaStep

/-- The parabola whose random solutions fail from the `after`-th on; the bookkeeping counts
random solutions and energy calls. -/
def failingStart (after : Nat) : Problem (Nat × Nat) Float where
  randomSolution := do
    let n ← Eval.bump fun (starts, calls) => (starts, (starts + 1, calls))
    if n ≥ after then Eval.fail "random solution failed" else parabolaStart
  energy x := do
    Eval.bump fun (starts, calls) => ((), (starts, calls + 1))
    pure (x * x)
  neighbor := parabolaStep

end Annealing.Problems
