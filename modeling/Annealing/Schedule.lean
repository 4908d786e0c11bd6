import Annealing.Config
import Annealing.Scalar

/-!
# Cooling schedules

`Schedule.temperatureAt s t0 a n t` is the temperature of iteration `t` under strategy `s`,
with starting temperature `t0`, rate `a` and `n` iterations planned; the iteration count
enters as a number of the scalar type, so in doubles it is rounded to the nearest double. No temperature falls
below `minTemperature`: anything lower, and NaN, is raised to it, so that dividing an energy
difference by the temperature never divides by zero.

The adaptive strategy's rate is kept inside `[minRate, maxRate]` by `clampRate`, which also
sends NaN to `maxRate`, the slowest cooling.
-/

namespace Annealing.Schedule

variable {α : Type} [Scalar α]

/-- The lowest temperature any schedule reports. -/
def minTemperature : α := 1e-10

/-- Raises a temperature below `minTemperature`, or NaN, to `minTemperature`. -/
def floorTemperature (t : α) : α :=
  if minTemperature ≤ t then t else minTemperature

/-- The smallest cooling rate the adaptive strategy uses. -/
def minRate : α := 1e-6

/-- The largest cooling rate the adaptive strategy uses. -/
def maxRate : α := 1.0 - 1e-6

/-- Brings a rate into `[minRate, maxRate]`; NaN becomes `maxRate`. -/
def clampRate (r : α) : α :=
  if Scalar.isNaN r then maxRate
  else if r < minRate then minRate
  else if maxRate < r then maxRate
  else r

/-- The larger of `x` and zero; a NaN gives zero. -/
def atLeastZero (x : α) : α :=
  if Scalar.isNaN x || decide (x < 0.0) then 0.0 else x

/-- The temperature before the floor, at iteration `t`, for starting temperature `t0`, rate
`a` and `n` planned iterations. -/
def rawTemperature (s : Strategy) (t0 a : α) (n : Nat) (t : α) : α :=
  match s with
  | .linear => t0 * atLeastZero (1.0 - t / Scalar.ofNat (max n 1))
  | .exponential => t0 * Scalar.pow a t
  | .adaptive => t0 * Scalar.pow (clampRate a) t
  | .logarithmic => t0 / Scalar.log (t + 2.0)
  | .geometric => t0 / (1.0 + a * t)
  | .quadratic => t0 / (1.0 + a * t * t)
  | .hyperbolic => t0 / (1.0 + a * Scalar.sqrt t)

/-- The temperature of iteration `iteration`, never below `minTemperature`. -/
def temperatureAt (s : Strategy) (t0 a : α) (n : Nat) (iteration : Nat) : α :=
  floorTemperature (rawTemperature s t0 a n (Scalar.ofNat iteration))

/-- The temperature of iteration `iteration` under a configuration, in doubles. -/
def temperature (c : Config) (iteration : Nat) : Float :=
  temperatureAt c.strategy c.initialTemperature c.coolingRate c.maxIterations iteration

end Annealing.Schedule
