import Annealing.Schedule
import Annealing.Acceptance
import Annealing.Adaptive
import Annealing.Restart
import Annealing.Error
import Annealing.Problem
import Annealing.Observer

/-!
# One annealing walk

A worker walks from a random solution through random neighbours, drawing from its own
stream. Everything it shares with the other workers of a run — the register of the best
solution, the problem's bookkeeping, the observer's state and the abort flag — is a
`Shared` value, and a worker changes it only through `Worker.step`, one iteration at a time.
A run of several workers is then any interleaving of their steps. The threads of a real run
also interleave inside an iteration; `Annealing.Interleaved` cuts a step at each of its
accesses to the shared state, and `Thread.steps_ofWorker` puts the step back together.

One iteration, in order:

1. stop if the abort flag is raised, then if the watched cancel token is set;
2. take the temperature: the adaptive controller's, or the schedule's at this iteration;
3. draw a neighbour and evaluate it (a NaN energy is a failure);
4. decide the move by the Metropolis rule, counting accepted and improving moves;
5. record the outcome in the adaptive controller;
6. if the current solution beats the worker's best, keep it and offer it to the register;
7. count the iteration, and sample the best energy every `historyInterval` iterations;
8. call the progress hook, then the stop hook, which may end the walk;
9. end after `maxIterations` iterations;
10. if a restart is due, draw and evaluate a fresh solution and adopt it only if the
    register takes it;
11. cool the adaptive controller.

A solution is offered to the register only when its energy is not above the register's, so
the register sees no offer that it would refuse for being worse.
-/

namespace Annealing

open Annealing.Random

/-- Why a worker stopped. -/
inductive Termination
  | maxIterations
  | stopCondition
  | cancelled
  | aborted
  deriving DecidableEq, Repr

/-- What a worker reports about its walk. -/
structure Stats where
  worker : Nat
  iterations : Nat
  acceptedMoves : Nat
  improvingMoves : Nat
  restarts : Nat
  restartsAdopted : Nat
  /-- The temperature of the last iteration that ran, or the starting one if none ran. -/
  finalTemperature : Float
  finalCoolingRate : Float
  bestEnergy : Float
  /-- The worker's best energy, sampled every `historyInterval` iterations. -/
  bestHistory : Array Float
  termination : Termination

/-- What all workers of a run share. -/
structure Shared (σ ω S : Type) where
  register : Register S
  problem : σ
  observer : ω
  /-- Raised when a worker fails, so that the others stop before their next iteration. -/
  abort : Bool := false

/-- A worker's walk between two iterations. -/
structure Walk (S : Type) where
  current : S
  currentEnergy : Float
  best : S
  bestEnergy : Float
  controller : Option (Adaptive.Controller Float)
  restarter : Restarter
  iterations : Nat := 0
  accepted : Nat := 0
  improving : Nat := 0
  temperature : Float
  history : Array Float := #[]

/-- Where a worker is: not started, before an iteration, or done. -/
inductive Phase (S : Type)
  | start
  | walking (iteration : Nat) (walk : Walk S)
  | finished (best : S) (stats : Stats)
  | failed (error : RunError)

/-- A worker: its index (also its stream number), its stream and where it is. -/
structure Worker (S : Type) where
  index : Nat
  stream : Stream
  phase : Phase S

/-- What every worker of a run is given. -/
structure Setup (σ ω S : Type) where
  config : Config
  problem : Problem σ S
  observer : Observer ω S
  /-- Whether the cancel token is read before every iteration. -/
  watchCancel : Bool
  status : Status

/-- A piece of a worker's turn: it reads and changes the shared state and its stream, and
may fail, keeping the changes made before the failure. -/
abbrev Turn (σ ω S : Type) := EStateM RunError (Shared σ ω S × Stream)

/-- The run failure of a problem fault in worker `index`. -/
def Fault.blame (index : Nat) : Fault → RunError
  | .failed reason => .problem index reason
  | .panicked message => .workerPanicked index message

namespace Walk

variable {S : Type}

/-- The report of a walk that ended for reason `t`. -/
def stats (w : Walk S) (c : Config) (index : Nat) (t : Termination) : Stats where
  worker := index
  iterations := w.iterations
  acceptedMoves := w.accepted
  improvingMoves := w.improving
  restarts := w.restarter.attempts
  restartsAdopted := w.restarter.adopted
  finalTemperature := w.temperature
  finalCoolingRate := match w.controller with
    | some ctl => ctl.rate
    | none => c.coolingRate
  bestEnergy := w.bestEnergy
  bestHistory := w.history
  termination := t

end Walk

namespace Turn

variable {σ ω S α : Type}

/-- Runs a problem operation on the shared bookkeeping and the worker's stream. -/
def perform (index : Nat) (act : Eval σ α) : Turn σ ω S α :=
  fun (sh, g) =>
    match act (sh.problem, g) with
    | .ok a (p, g) => .ok a ({ sh with problem := p }, g)
    | .error f (p, g) => .error (f.blame index) ({ sh with problem := p }, g)

/-- Runs an observer hook on the observer's state. -/
def hook (index : Nat) (act : EStateM String ω α) : Turn σ ω S α :=
  fun (sh, g) =>
    match act sh.observer with
    | .ok a o => .ok a ({ sh with observer := o }, g)
    | .error m o => .error (.callback index m) ({ sh with observer := o }, g)

/-- A draw from the worker's stream. -/
def draw (f : Stream → α × Stream) : Turn σ ω S α :=
  fun (sh, g) => let (a, g) := f g; .ok a (sh, g)

/-- The energy of a solution at an iteration; a NaN energy is a failure. -/
def evaluate (p : Problem σ S) (index iteration : Nat) (s : S) : Turn σ ω S Float := do
  let e ← perform index (p.energy s)
  if e.isNaN then throw (.nanEnergy index iteration) else pure e

/-- Offers a solution to the register when its energy is not above the register's. -/
def publish (e : Float) (s : S) : Turn σ ω S Unit :=
  modify fun (sh, g) =>
    if e ≤ sh.register.bestEnergy then ({ sh with register := (sh.register.offer e s).2 }, g)
    else (sh, g)

/-- The shared state as it is now. -/
def shared : Turn σ ω S (Shared σ ω S) :=
  fun s => .ok s.1 s

/-- The start of a walk: a random solution, evaluated and offered to the register, then the
adaptive controller, whose window may be too long to reserve. -/
def begin (cx : Setup σ ω S) (index : Nat) : Turn σ ω S (Walk S) := do
  let c := cx.config
  let s ← perform index cx.problem.randomSolution
  let e ← evaluate cx.problem index 0 s
  publish e s
  let controller ← if c.strategy = .adaptive then
      match Adaptive.Controller.reserve c.adaptive c.initialTemperature c.coolingRate with
      | .ok ctl => pure (some ctl)
      | .error message => throw (.workerPanicked index message)
    else pure none
  pure {
    current := s, currentEnergy := e, best := s, bestEnergy := e, controller
    restarter := Restarter.start c.restartInterval
    temperature := Schedule.floorTemperature c.initialTemperature }

/-- The restart at the end of an iteration, if one is due: a fresh solution is adopted as
current and best only when the register takes it. -/
def restart (cx : Setup σ ω S) (index iteration : Nat) (w : Walk S) : Turn σ ω S (Walk S) := do
  let (due, r) := w.restarter.tick
  let w := { w with restarter := r }
  if !due then return w
  let fresh ← perform index cx.problem.randomSolution
  let freshEnergy ← evaluate cx.problem index iteration fresh
  let (sh, g) ← get
  let (adopted, r, reg) := w.restarter.offer fresh freshEnergy sh.register
  set ({ sh with register := reg }, g)
  match adopted with
  | some (s, e) =>
    pure { w with restarter := r, current := s, currentEnergy := e, best := s, bestEnergy := e }
  | none => pure { w with restarter := r }

/-- The move of one iteration: a neighbour, its energy and the Metropolis decision, with the
counts of accepted and improving moves and the adaptive record. -/
def move (cx : Setup σ ω S) (index iteration : Nat) (w : Walk S) : Turn σ ω S (Walk S) := do
  let temperature := match w.controller with
    | some ctl => ctl.temperature
    | none => Schedule.temperature cx.config iteration
  let w := { w with temperature }
  let candidate ← perform index (cx.problem.neighbor w.current)
  let candidateEnergy ← evaluate cx.problem index iteration candidate
  let taken ← draw (Acceptance.decide w.currentEnergy candidateEnergy temperature)
  let w := if taken then
      { w with current := candidate, currentEnergy := candidateEnergy
               accepted := w.accepted + 1
               improving := if candidateEnergy < w.currentEnergy then w.improving + 1
                 else w.improving }
    else w
  pure { w with controller := w.controller.map fun ctl => (ctl.record taken).2 }

/-- Keeps the current solution as the worker's best when it is better, offering it to the
register; then counts the iteration and samples the best energy when due. -/
def keepBest (c : Config) (iteration : Nat) (w : Walk S) : Turn σ ω S (Walk S) := do
  let w ← if w.currentEnergy < w.bestEnergy then do
      publish w.currentEnergy w.current
      pure { w with best := w.current, bestEnergy := w.currentEnergy }
    else pure w
  let n := iteration + 1
  let w := { w with iterations := n }
  if c.historyInterval > 0 && n % c.historyInterval == 0 then
    pure { w with history := w.history.push w.bestEnergy }
  else pure w

/-- Calls the progress hook and then the stop hook; true when the walk stops here. -/
def observe (cx : Setup σ ω S) (index iteration : Nat) (w : Walk S) : Turn σ ω S Bool := do
  match cx.observer.progress with
  | some f => hook index (f cx.status iteration w.currentEnergy w.current)
  | none => pure ()
  match cx.observer.stop with
  | some f => hook index (f iteration w.currentEnergy w.current)
  | none => pure false

/-- An iteration up to its restart: the checks before the move, the move, the local best,
the hooks, and the end after `maxIterations`. The walk either ends here, with its last
phase, or goes on to the restart. -/
def advance (cx : Setup σ ω S) (index iteration : Nat) (w : Walk S) :
    Turn σ ω S (Phase S ⊕ Walk S) := do
  let c := cx.config
  let finish := fun (w : Walk S) (t : Termination) =>
    Sum.inl (Phase.finished w.best (w.stats c index t))
  if iteration ≥ c.maxIterations then return finish w .maxIterations
  let sh ← shared
  if sh.abort then return finish w .aborted
  if cx.watchCancel && cx.observer.cancelRequested sh.observer then
    return finish w .cancelled
  let w ← move cx index iteration w
  let w ← keepBest c iteration w
  if ← observe cx index iteration w then return finish w .stopCondition
  if iteration + 1 = c.maxIterations then return finish w .maxIterations
  pure (.inr w)

/-- One iteration of a walk, or the end of the walk: `advance`, then the restart if one is
due and the cooling of the adaptive controller. -/
def iterate (cx : Setup σ ω S) (index iteration : Nat) (w : Walk S) : Turn σ ω S (Phase S) := do
  match ← advance cx index iteration w with
  | .inl phase => pure phase
  | .inr w =>
    let w ← restart cx index iteration w
    pure (.walking (iteration + 1) { w with controller := w.controller.map (·.cool) })

end Turn

namespace Worker

variable {σ ω S : Type}

/-- A worker that has not started, on stream `index` of the seed. -/
def fresh (seed : UInt64) (index : Nat) : Worker S :=
  ⟨index, Stream.ofSeed seed index.toUInt64, .start⟩

/-- Whether the worker is done, finished or failed. -/
def done (wk : Worker S) : Bool :=
  match wk.phase with
  | .finished .. | .failed _ => true
  | .start | .walking .. => false

/-- The worker's next step: its start, or one iteration. A step that fails raises the abort
flag. A done worker stays as it is. -/
def step (cx : Setup σ ω S) (sh : Shared σ ω S) (wk : Worker S) : Shared σ ω S × Worker S :=
  let settle := fun {α : Type} (act : Turn σ ω S α) (next : α → Phase S) =>
    match act (sh, wk.stream) with
    | .ok a (sh, g) => (sh, { wk with stream := g, phase := next a })
    | .error e (sh, g) => ({ sh with abort := true }, { wk with stream := g, phase := .failed e })
  match wk.phase with
  | .start => settle (Turn.begin cx wk.index) (.walking 0)
  | .walking it w => settle (Turn.iterate cx wk.index it w) id
  | .finished .. | .failed _ => (sh, wk)

/-- At most `fuel` steps, stopping early once the worker is done. -/
def runFor (cx : Setup σ ω S) : Nat → Shared σ ω S → Worker S → Shared σ ω S × Worker S
  | 0, sh, wk => (sh, wk)
  | fuel + 1, sh, wk =>
    let (sh, wk) := step cx sh wk
    if wk.done then (sh, wk) else runFor cx fuel sh wk

/-- Runs a worker to its end: the start and at most `maxIterations` iterations. -/
def run (cx : Setup σ ω S) (sh : Shared σ ω S) (wk : Worker S) : Shared σ ω S × Worker S :=
  runFor cx (cx.config.maxIterations + 1) sh wk

/-- The worker's best solution and report, or its failure. A worker that is not done has
no report; `run` never leaves one so. -/
def outcome (wk : Worker S) : Except RunError (S × Stats) :=
  match wk.phase with
  | .finished best stats => .ok (best, stats)
  | .failed e => .error e
  | .start | .walking .. => .error .noSolution

end Worker

end Annealing
