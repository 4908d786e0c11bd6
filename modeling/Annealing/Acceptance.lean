import Annealing.Random.Draw
import Annealing.Scalar

/-!
# The Metropolis rule

A move to a candidate no worse than the current solution is always taken, without drawing.
A worse one is taken with probability `exp((current - candidate) / T)`: a uniform draw in
`[0, 1)` is compared with it. Where the quotient is NaN (both energies infinite, say) the
probability is zero, so such a move is refused after its draw.
-/

namespace Annealing.Acceptance

open Annealing.Random

/-- The probability of moving from energy `current` to `candidate` at temperature `t`. -/
def probability {α : Type} [Scalar α] (current candidate t : α) : α :=
  if candidate ≤ current then 1.0
  else
    let p := Scalar.exp ((current - candidate) / t)
    if Scalar.isNaN p then 0.0 else p

/-- Whether the move is taken, drawing one uniform double only for a worse candidate. -/
def decide (current candidate t : Float) (g : Stream) : Bool × Stream :=
  if candidate ≤ current then (true, g)
  else
    let (u, g) := g.unit
    (u < probability current candidate t, g)

end Annealing.Acceptance
