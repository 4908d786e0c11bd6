import Annealing.Register

/-!
# Periodic restarts

A worker with a restart interval `k > 0` asks, after each iteration, whether a restart is
due: the `k`-th question since the last offer says yes. The worker then draws a fresh
solution and offers it to the shared register; it adopts the fresh solution only if the
register takes it, that is, only if it beats the best solution of every worker. An interval
of zero never restarts.
-/

namespace Annealing

/-- The restart schedule of one worker, with counts of offers and adoptions. -/
structure Restarter where
  interval : Nat
  sinceLast : Nat := 0
  attempts : Nat := 0
  adopted : Nat := 0

namespace Restarter

/-- A restarter that has not yet restarted. -/
def start (interval : Nat) : Restarter := { interval }

/-- Whether restarts happen at all. -/
def enabled (r : Restarter) : Bool := r.interval > 0

/-- Counts one iteration; true when a restart is due. -/
def tick (r : Restarter) : Bool × Restarter :=
  if r.interval = 0 then (false, r)
  else
    let since := r.sinceLast + 1
    (since ≥ r.interval, { r with sinceLast := since })

/-- Offers a fresh solution to the register: it is adopted, and returned, when the register
takes it. The count since the last restart starts again either way. -/
def offer {S : Type} (r : Restarter) (solution : S) (energy : Float) (reg : Register S) :
    Option (S × Float) × Restarter × Register S :=
  let r := { r with sinceLast := 0, attempts := r.attempts + 1 }
  match reg.offer energy solution with
  | (true, reg) => (some (solution, energy), { r with adopted := r.adopted + 1 }, reg)
  | (false, reg) => (none, r, reg)

end Restarter

end Annealing
