/-!
# Observers of a run

An observer watches every worker after every iteration. Its progress hook sees the
iteration, the current energy and solution, and the engine's status; its stop hook decides
whether the worker stops there. Both keep their own state `ω`, shared by all workers, and
either may stop abnormally with a message, keeping what it changed before that.

The cancel token lives in the observer's state as well: a run that watches the token reads it
through `cancelRequested` before every iteration, and a progress hook may set it.
-/

namespace Annealing

/-- What an observer sees of the engine while a run is going on. -/
structure Status where
  running : Bool
  threadCount : Nat

/-- Hooks called after every iteration of every worker, with state `ω`. -/
structure Observer (ω S : Type) where
  /-- Sees the status, the iteration, the current energy and the current solution. -/
  progress : Option (Status → Nat → Float → S → EStateM String ω Unit) := none
  /-- Sees the iteration, the current energy and solution; true stops the worker. -/
  stop : Option (Nat → Float → S → EStateM String ω Bool) := none
  /-- Whether the cancel token held in the state is set. -/
  cancelRequested : ω → Bool := fun _ => false

end Annealing
