import Annealing.Engine

/-!
# An instrumented observer

A `Probe` is an observer for exercising the engine. Its stop hook stops a worker at a given
iteration or below a given energy, or stops abnormally at a given iteration. Its progress
hook, at each iteration and in this order: appends the iteration and the current energy to
a trace, sets the cancel token at a given iteration, asks the engine for a second run at a
given iteration and keeps the answer, and stops abnormally at a given iteration.

A hook exists only if one of its settings is given (tracing counts when it is on). Since the
progress hook runs while the engine is running, the second run it asks for is always refused.
-/

namespace Annealing

/-- The settings of an instrumented observer; every one is optional. -/
structure Probe where
  stopAt : Option Nat := none
  stopBelow : Option Float := none
  stopPanicAt : Option Nat := none
  /-- Whether iterations and energies are traced. -/
  trace : Bool := false
  cancelAt : Option Nat := none
  reenterAt : Option Nat := none
  progressPanicAt : Option Nat := none
  /-- The message of every abnormal stop. -/
  panicMessage : String := "callback exploded"

namespace Probe

/-- What a probe records: the trace, the cancel token, and the answer to its second run. -/
structure Log where
  trace : Array (Nat × Float) := #[]
  cancel : Bool := false
  reenter : Option RunError := none

/-- Whether the probe has a stop hook. -/
def stops (p : Probe) : Bool :=
  p.stopAt.isSome || p.stopBelow.isSome || p.stopPanicAt.isSome

/-- Whether the probe has a progress hook. -/
def watches (p : Probe) : Bool :=
  p.trace || p.cancelAt.isSome || p.reenterAt.isSome || p.progressPanicAt.isSome

/-- The progress hook: trace, cancel, second run, abnormal stop, in this order. -/
def progress (p : Probe) (status : Status) (i : Nat) (e : Float) : EStateM String Log Unit := do
  if p.trace then modify fun l => { l with trace := l.trace.push (i, e) }
  if p.cancelAt == some i then modify fun l => { l with cancel := true }
  if p.reenterAt == some i then
    match Engine.checkStart status.threadCount status.running with
    | .error err => modify fun l => { l with reenter := some err }
    | .ok () => pure ()
  if p.progressPanicAt == some i then throw p.panicMessage

/-- The stop hook: an abnormal stop at `stopPanicAt`, else a stop at `stopAt` or below
`stopBelow`. -/
def stop (p : Probe) (i : Nat) (e : Float) : EStateM String Log Bool := do
  if p.stopPanicAt == some i then throw p.panicMessage
  let below := match p.stopBelow with
    | some v => e < v
    | none => false
  pure (p.stopAt == some i || below)

/-- The probe as an observer of solutions `S`; the cancel token is the log's. -/
def observer {S : Type} (p : Probe) : Observer Log S where
  progress := if p.watches then some fun status i e _ => p.progress status i e else none
  stop := if p.stops then some fun i e _ => p.stop i e else none
  cancelRequested := (·.cancel)

end Probe

end Annealing
