import Annealing.Schedule

/-!
# Cooling driven by the acceptance ratio

The adaptive strategy keeps the outcomes of the last `window` moves and, after every
`window` recorded moves, compares the share of accepted moves with two thresholds. A search
that accepts too few moves is cooling too fast, so the rate moves a `step` of the way
towards 1 (`slower`); one that accepts too many is still wandering, so the rate shrinks by a
`step` of itself (`faster`). A ratio equal to a threshold changes nothing. The rate is
always brought back into `[minRate, maxRate]`, and cooling multiplies the temperature by
the rate, never going below the minimum temperature.

A window of zero acts as a window of one. A walk reserves room for its window's outcomes
when it starts (`Controller.reserve`), and a window longer than `maxWindow` cannot be reserved.
-/

namespace Annealing.Adaptive

open Schedule

/-- How the rate was changed. -/
inductive Adjustment
  | slower
  | faster
  deriving DecidableEq, Repr

/-- A first-in first-out sequence of outcomes: `front` oldest first, then `back` newest
first. -/
structure Window where
  front : List Bool := []
  back : List Bool := []
  size : Nat := 0

namespace Window

/-- The outcomes, oldest first. -/
def toList (w : Window) : List Bool :=
  w.front ++ w.back.reverse

/-- Appends the newest outcome. -/
def push (w : Window) (b : Bool) : Window :=
  { w with back := b :: w.back, size := w.size + 1 }

/-- Removes the oldest outcome, if there is one. -/
def pop? (w : Window) : Option (Bool × Window) :=
  match w.front with
  | b :: rest => some (b, { w with front := rest, size := w.size - 1 })
  | [] =>
    match w.back.reverse with
    | b :: rest => some (b, ⟨rest, [], w.size - 1⟩)
    | [] => none

end Window

/-- The state of the adaptive strategy for one worker. -/
structure Controller (α : Type) where
  settings : AdaptiveSettings α
  rate : α
  temperature : α
  outcomes : Window := {}
  /-- How many of `outcomes` are acceptances. -/
  accepted : Nat := 0
  /-- Records since the rate was last looked at. -/
  sinceAdjustment : Nat := 0

namespace Controller

variable {α : Type} [Scalar α]

/-- A controller with no outcomes, its rate and temperature brought into range. -/
def start (settings : AdaptiveSettings α) (temperature rate : α) : Controller α :=
  { settings, rate := clampRate rate, temperature := floorTemperature temperature }

/-- The most outcomes a window can reserve room for: each outcome takes a byte, and no single
block of memory is larger than `2^63 - 1` bytes. -/
def maxWindow : Nat := 9223372036854775807

/-- The failure to reserve room for a window longer than `maxWindow`. -/
def capacityOverflow : String := "capacity overflow"

/-- `start`, after reserving room for the outcomes of the window in effect; it fails with
`capacityOverflow` when that window is longer than `maxWindow`. -/
def reserve (settings : AdaptiveSettings α) (temperature rate : α) : Except String (Controller α) :=
  if max settings.window 1 ≤ maxWindow then .ok (start settings temperature rate)
  else .error capacityOverflow

/-- The window length in effect: zero acts as one. -/
def window (c : Controller α) : Nat :=
  max c.settings.window 1

/-- The share of accepted moves in the window; none for an empty window. -/
def acceptanceRate (c : Controller α) : Option α :=
  if c.outcomes.size = 0 then none
  else some (Scalar.ofNat c.accepted / Scalar.ofNat c.outcomes.size)

/-- The outcome added to a full window pushes out the oldest. -/
def remember (c : Controller α) (accepted : Bool) : Controller α :=
  let c :=
    if c.outcomes.size = c.window then
      match c.outcomes.pop? with
      | some (oldest, rest) =>
        { c with outcomes := rest, accepted := if oldest then c.accepted - 1 else c.accepted }
      | none => c
    else c
  { c with outcomes := c.outcomes.push accepted,
           accepted := if accepted then c.accepted + 1 else c.accepted }

/-- Records a move's outcome; every `window`-th record may adjust the rate. -/
def record (c : Controller α) (accepted : Bool) : Option Adjustment × Controller α :=
  let c := c.remember accepted
  let since := c.sinceAdjustment + 1
  if since < c.window then (none, { c with sinceAdjustment := since })
  else
    let c := { c with sinceAdjustment := 0 }
    let ratio : α := Scalar.ofNat c.accepted / Scalar.ofNat c.outcomes.size
    let step := c.settings.step
    if ratio < c.settings.lowAcceptance then
      (some .slower, { c with rate := clampRate (c.rate + step * (1.0 - c.rate)) })
    else if c.settings.highAcceptance < ratio then
      (some .faster, { c with rate := clampRate (c.rate - step * c.rate) })
    else (none, c)

/-- One cooling step: the temperature times the rate, at least the minimum temperature. -/
def cool (c : Controller α) : Controller α :=
  { c with temperature := floorTemperature (c.temperature * c.rate) }

end Controller

end Annealing.Adaptive
