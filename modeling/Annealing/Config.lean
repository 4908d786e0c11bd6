import Annealing.Strategy
import Annealing.Decimal.Layout

/-!
# Run configuration and its validation

A `Config` fixes everything about a run: the starting temperature, the cooling rate and
strategy, how many iterations each worker makes, how often it restarts, how many workers
run, how often a worker samples its best energy, the adaptive settings and the seed.

`Config.validate` checks it before any worker starts and names the first fault it meets,
in a fixed order: temperature, rate, iterations, workers, adaptive settings. Every
comparison is false on NaN, so a NaN is rejected wherever a bound is checked.
-/

namespace Annealing

open Decimal

/-- How the adaptive strategy watches acceptance: a window of the last `window` moves, the
acceptance ratios below and above which the rate changes, and the size of a change. -/
structure AdaptiveSettings (α : Type) where
  window : Nat
  lowAcceptance : α
  highAcceptance : α
  step : α

/-- A window of 100 moves, thresholds 5% and 60%, and steps of a tenth. -/
def AdaptiveSettings.standard {α : Type} [OfScientific α] : AdaptiveSettings α :=
  ⟨100, 0.05, 0.6, 0.1⟩

/-- Everything that determines a run. -/
structure Config where
  initialTemperature : Float := 100.0
  coolingRate : Float := 0.995
  maxIterations : Nat := 10000
  strategy : Strategy := Strategy.default
  /-- Iterations between restarts; zero never restarts. -/
  restartInterval : Nat := 0
  threadCount : Nat := 1
  /-- Iterations between samples of a worker's best energy; zero never samples. -/
  historyInterval : Nat := 100
  adaptive : AdaptiveSettings Float := AdaptiveSettings.standard
  seed : Option UInt64 := none

/-- Why adaptive settings were refused. -/
inductive AdaptiveFault
  | zeroWindow
  | thresholds (low high : Float)
  | stepOutOfRange (step : Float)

/-- Why a configuration was refused. -/
inductive ConfigError
  | nonPositiveTemperature (temperature : Float)
  | coolingRateOutOfRange (strategy : Strategy) (rate : Float)
  | zeroMaxIterations
  | zeroThreads
  | invalidAdaptive (fault : AdaptiveFault)

/-- Numbers in messages are written positionally with the fewest digits that read back. -/
def numberText (x : Float) : String :=
  Layout.positional.write x

/-- The explanation of an adaptive fault. -/
def AdaptiveFault.message : AdaptiveFault → String
  | .zeroWindow => "window must be greater than zero"
  | .thresholds low high =>
    "need 0 <= low_acceptance < high_acceptance <= 1, got " ++ numberText low ++ " and " ++
      numberText high
  | .stepOutOfRange s => "step must be in (0, 1), got " ++ numberText s

/-- The explanation of a configuration error. -/
def ConfigError.message : ConfigError → String
  | .nonPositiveTemperature t =>
    "initial_temperature must be positive and finite, got " ++ numberText t
  | .coolingRateOutOfRange s rate =>
    "cooling_rate for " ++ s.name ++ " must be in (0, 1), got " ++ numberText rate
  | .zeroMaxIterations => "max_iterations must be greater than zero"
  | .zeroThreads => "thread_count must be at least 1"
  | .invalidAdaptive f => "invalid adaptive cooling settings: " ++ f.message

/-- Whether `x` lies in `[0, 1]`; false on NaN. -/
def inUnitInterval (x : Float) : Bool :=
  0.0 ≤ x && x ≤ 1.0

/-- Accepts a positive window, thresholds `0 ≤ low < high ≤ 1`, and a step in `(0, 1)`. -/
def AdaptiveSettings.validate (a : AdaptiveSettings Float) : Except ConfigError Unit :=
  if a.window = 0 then .error (.invalidAdaptive .zeroWindow)
  else if !inUnitInterval a.lowAcceptance || !inUnitInterval a.highAcceptance ||
      a.lowAcceptance ≥ a.highAcceptance then
    .error (.invalidAdaptive (.thresholds a.lowAcceptance a.highAcceptance))
  else if !(a.step > 0.0 && a.step < 1.0) then .error (.invalidAdaptive (.stepOutOfRange a.step))
  else .ok ()

/-- Accepts a configuration with a positive finite temperature, a rate in `(0, 1)` where the
strategy needs one, at least one iteration and one worker, and valid adaptive settings when
the strategy is adaptive; otherwise names the first fault in that order. -/
def Config.validate (c : Config) : Except ConfigError Unit :=
  if !(c.initialTemperature > 0.0 && c.initialTemperature.isFinite) then
    .error (.nonPositiveTemperature c.initialTemperature)
  else if c.strategy.requiresUnitRate && !(c.coolingRate > 0.0 && c.coolingRate < 1.0) then
    .error (.coolingRateOutOfRange c.strategy c.coolingRate)
  else if c.maxIterations = 0 then .error .zeroMaxIterations
  else if c.threadCount = 0 then .error .zeroThreads
  else if c.strategy = .adaptive then c.adaptive.validate
  else .ok ()

end Annealing
