import Annealing.Config

/-!
# Why a run fails

A run fails before any worker starts when the configuration or the engine refuses it, and
otherwise because of one worker: its problem reported an error, produced a NaN energy, or
stopped abnormally, or an observer hook stopped abnormally. `RunError.worker?` names that
worker, and `RunError.message` explains the failure in one line.
-/

namespace Annealing

/-- Why a run failed. -/
inductive RunError
  /-- The configuration was refused before anything ran. -/
  | config (e : ConfigError)
  /-- A problem operation reported an error. -/
  | problem (worker : Nat) (reason : String)
  /-- The problem gave a NaN energy, at an iteration (0 for the first solution). -/
  | nanEnergy (worker iteration : Nat)
  /-- The progress or stop hook stopped abnormally. -/
  | callback (worker : Nat) (message : String)
  /-- A worker stopped abnormally outside the hooks. -/
  | workerPanicked (worker : Nat) (message : String)
  /-- Every worker finished and none left a solution. -/
  | noSolution
  /-- A run was asked for while another was going on. -/
  | alreadyRunning

namespace RunError

/-- The explanation of a run failure. -/
def message : RunError → String
  | .config e => e.message
  | .problem w reason => "problem evaluation failed in worker " ++ toString w ++ ": " ++ reason
  | .nanEnergy w i =>
    "problem returned a NaN energy in worker " ++ toString w ++ " at iteration " ++ toString i
  | .callback w m => "callback panicked in worker " ++ toString w ++ ": " ++ m
  | .workerPanicked w m => "worker " ++ toString w ++ " panicked: " ++ m
  | .noSolution => "no worker produced a solution"
  | .alreadyRunning => "an optimization run is already in progress on this engine"

/-- The worker a failure belongs to, if it belongs to one. -/
def worker? : RunError → Option Nat
  | .problem w _ | .nanEnergy w _ | .callback w _ | .workerPanicked w _ => some w
  | .config _ | .noSolution | .alreadyRunning => none

/-- Whether the failure came before any worker ran, from the configuration. -/
def isConfig : RunError → Bool
  | .config _ => true
  | _ => false

end RunError

end Annealing
