import Annealing.Worker

/-!
# The engine: a run of several workers

An engine holds a problem, a validated configuration and an observer. A run is admitted
only with at least one worker and while no other run is going on; it then empties the
register and runs the workers, worker `i` on stream `i` of the run's seed.

The workers share the register, the problem's bookkeeping, the observer's state and the
abort flag, and nothing else. A run steps them in any interleaving (`interleave`), given as a
schedule of worker indices, after which each runs to its end in index order; by default
`Engine.execute` runs them one after another, in index order. A worker that fails raises the
abort flag, so the workers still to run stop before their next iteration. Here a worker's
iteration is one move of the interleaving; `Interleaved.launch` interleaves the workers at
every access to what they share, and each run here is one of those
(`Engine.interleave_refined`).

The run fails with the first failure in worker order. Otherwise every worker's best is
offered to the register once more, and the register's solution is the result. After a
failure the register keeps what the workers offered before it: a degraded best.
-/

namespace Annealing

open Annealing.Random

/-- The result of a successful run. -/
structure Summary (S : Type) where
  best : S
  bestEnergy : Float
  /-- Iterations over all workers. -/
  iterations : Nat
  /-- One report per worker, in worker order. -/
  workers : List Stats
  /-- Every improvement of the register, in order. -/
  improvementHistory : Array Float
  /-- Whether some worker stopped on the cancel token. -/
  cancelled : Bool

namespace Summary

variable {S : Type}

/-- Accepted moves over all workers. -/
def acceptedMoves (r : Summary S) : Nat :=
  r.workers.foldl (fun n w => n + w.acceptedMoves) 0

/-- The share of iterations whose move was accepted; zero when nothing ran. -/
def acceptanceRatio (r : Summary S) : Float :=
  if r.iterations = 0 then 0.0 else r.acceptedMoves.toFloat / r.iterations.toFloat

end Summary

/-- A problem, a validated configuration and an observer. -/
structure Engine (σ ω S : Type) where
  problem : Problem σ S
  config : Config
  observer : Observer ω S := {}

/-- The answer of a run, and the shared state it leaves. -/
structure Run (σ ω S : Type) where
  result : Except RunError (Summary S)
  shared : Shared σ ω S

namespace Engine

variable {σ ω S : Type}

/-- An engine, once its configuration is accepted. -/
def create (problem : Problem σ S) (config : Config) (observer : Observer ω S := {}) :
    Except ConfigError (Engine σ ω S) := do
  config.validate
  pure { problem, config, observer }

/-- Whether a run with `threads` workers may start: it needs a worker, and no run may be
going on. -/
def checkStart (threads : Nat) (running : Bool) : Except RunError Unit :=
  if threads = 0 then .error (.config .zeroThreads)
  else if running then .error .alreadyRunning
  else .ok ()

/-- Offers every worker's best to the register once more, in worker order. -/
def reconcile (sh : Shared σ ω S) (reports : List (S × Stats)) : Shared σ ω S :=
  reports.foldl (fun sh (best, st) =>
    if st.bestEnergy ≤ sh.register.bestEnergy then
      { sh with register := (sh.register.offer st.bestEnergy best).2 }
    else sh) sh

/-- Steps the workers of `pool` in the order `schedule` names them; a name outside the pool
takes no step. Any interleaving of the workers is such a schedule. -/
def interleave (cx : Setup σ ω S) (schedule : List Nat) (sh : Shared σ ω S)
    (pool : Array (Worker S)) : Shared σ ω S × Array (Worker S) :=
  schedule.foldl (fun (acc : Shared σ ω S × Array (Worker S)) i =>
    if h : i < acc.2.size then
      let (sh, wk) := acc.2[i].step cx acc.1
      (sh, acc.2.set i wk)
    else acc) (sh, pool)

/-- The schedule that gives each of `threads` workers `steps` steps in a row, worker `0`
first. With `maxIterations + 1` steps each, every worker runs to its end before the next
starts. -/
def inOrder (threads steps : Nat) : List Nat :=
  (List.range threads).flatMap fun i => List.replicate steps i

/-- The workers `0, …, threads - 1` of a run, none started, worker `i` on stream `i` of
`seed`. -/
def pool (seed : UInt64) (threads : Nat) : Array (Worker S) :=
  Array.ofFn fun i : Fin threads => Worker.fresh seed i

/-- The shared state and the workers once a run is over: the workers take the steps that
`schedule` names, and then each in turn runs to its end, worker `0` first. -/
def settle (cx : Setup σ ω S) (seed : UInt64) (threads : Nat) (schedule : List Nat)
    (sh : Shared σ ω S) : Shared σ ω S × Array (Worker S) :=
  interleave cx (schedule ++ inOrder threads (cx.config.maxIterations + 1)) sh (pool seed threads)

/-- The answer of a run from the state its workers leave and their outcomes in worker order:
the first failure, or else the register's solution once every worker's best has been offered
to it again. -/
def conclude (sh : Shared σ ω S) (outcomes : List (Except RunError (S × Stats))) :
    Run σ ω S :=
  match outcomes.mapM id with
  | .error err => ⟨.error err, sh⟩
  | .ok reports =>
    let sh := reconcile sh reports
    match sh.register.best with
    | none => ⟨.error .noSolution, sh⟩
    | some (best, bestEnergy) =>
      let workers := reports.map (·.2)
      ⟨.ok {
        best, bestEnergy, workers
        iterations := workers.foldl (fun n w => n + w.iterations) 0
        improvementHistory := sh.register.history
        cancelled := workers.any (·.termination == .cancelled) }, sh⟩

/-- What every worker of a run is given; `watchCancel` says whether the cancel token is
read. -/
def setup (e : Engine σ ω S) (watchCancel : Bool) : Setup σ ω S where
  config := e.config
  problem := e.problem
  observer := e.observer
  watchCancel := watchCancel
  status := ⟨true, e.config.threadCount⟩

/-- A run once admitted: the register is emptied and the abort flag lowered, the workers run
in the order `schedule` gives and then to their ends, and their outcomes are concluded.
`entropy` is the seed of a configuration without one. -/
def launch (e : Engine σ ω S) (sh : Shared σ ω S) (threads : Nat) (watchCancel : Bool)
    (entropy : UInt64) (schedule : List Nat) : Run σ ω S :=
  let (sh, pool) := settle (e.setup watchCancel) (e.config.seed.getD entropy) threads schedule
    { sh with register := Register.empty, abort := false }
  conclude sh (pool.toList.map Worker.outcome)

/-- A run with `threads` workers. `running` says whether another run is going on;
`watchCancel` whether the cancel token is read; `entropy` is the seed of a configuration
without one. The workers run one after another in index order unless `schedule` first
interleaves their steps otherwise. -/
def execute (e : Engine σ ω S) (sh : Shared σ ω S) (running : Bool) (threads : Nat)
    (watchCancel : Bool) (entropy : UInt64 := 0) (schedule : List Nat := []) : Run σ ω S :=
  match checkStart threads running with
  | .error err => ⟨.error err, sh⟩
  | .ok () => e.launch sh threads watchCancel entropy schedule

end Engine

end Annealing
