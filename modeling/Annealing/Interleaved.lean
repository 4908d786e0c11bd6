import Annealing.Engine

/-!
# Workers that interleave at every shared access

`Worker.step` makes a whole iteration at once, so in `Engine.interleave` the workers take turns
an iteration at a time. The threads of a real run interleave more finely: between any two
accesses that one worker makes to what the workers share, the others may act. Here a worker's
walk is cut before each such access:

* a call to the problem (a random solution, a neighbour, an energy), on the problem's
  bookkeeping;
* a call to the progress hook or to the stop hook, on the observer's state;
* the read of the abort flag, and the separate read of the cancel token;
* an offer to the register: the publication of a local best, with the guard that reads the
  register's energy first, or the offer of a restart.

A `Thread` is a worker at a `Stage`, named for the access it makes next, and `Thread.step`
makes that one access. A run is any interleaving of the threads' accesses (`Interleaved.run`),
and `Interleaved.launch` runs an engine so: the threads make the accesses a schedule names, then
each runs to its end in index order, and their outcomes are concluded as in `Engine.launch`.

An offer to the register stays one access. The register's own calls are made of smaller steps
(the guard, the NaN check, the unlocked read of the mirror, the update under the lock), and
`Mirrored.register_linearizable` shows that every interleaving of those is matched by one in
which each call is a single lock-only offer.

The accesses are the pieces of `Turn.begin` and `Turn.iterate`, cut where those touch the shared
state. A thread that makes the accesses of one step with no other thread's in between makes that
step (`Thread.steps_ofWorker`), so every run of `Engine.interleave` is a run here.
-/

namespace Annealing

open Annealing.Random

/-- Where a worker is between two of its accesses to the shared state, named for what it does
next. -/
inductive Stage (S : Type)
  /-- draws a random solution -/
  | start
  /-- evaluates the starting solution -/
  | evaluateStart (s : S)
  /-- offers the starting solution, and sets up the walk -/
  | offerStart (s : S) (e : Float)
  /-- before iteration `iteration`: its bound, then the abort flag -/
  | walking (iteration : Nat) (walk : Walk S)
  /-- reads the cancel token -/
  | checkCancel (iteration : Nat) (walk : Walk S)
  /-- takes the temperature and draws a neighbour -/
  | propose (iteration : Nat) (walk : Walk S)
  /-- evaluates the neighbour and decides the move -/
  | evaluate (iteration : Nat) (walk : Walk S) (candidate : S)
  /-- keeps the current solution as the local best when it is better, offering it -/
  | keep (iteration : Nat) (walk : Walk S)
  /-- calls the progress hook -/
  | report (iteration : Nat) (walk : Walk S)
  /-- calls the stop hook, then ends after the last iteration or ticks the restart schedule -/
  | askStop (iteration : Nat) (walk : Walk S)
  /-- draws a fresh solution for a restart that is due -/
  | refresh (iteration : Nat) (walk : Walk S)
  /-- evaluates the fresh solution -/
  | evaluateFresh (iteration : Nat) (walk : Walk S) (fresh : S)
  /-- offers the fresh solution through the restart schedule, then cools -/
  | offerFresh (iteration : Nat) (walk : Walk S) (fresh : S) (energy : Float)
  | finished (best : S) (stats : Stats)
  | failed (error : RunError)

namespace Stage

variable {σ ω S : Type}

/-- The stage of a worker between two steps. -/
def ofPhase : Phase S → Stage S
  | .start => .start
  | .walking t w => .walking t w
  | .finished best stats => .finished best stats
  | .failed e => .failed e

/-- Whether a worker at this stage is done, finished or failed. -/
def done : Stage S → Bool
  | .finished .. | .failed _ => true
  | _ => false

/-- The end of walk `w` for reason `t`, reported as `Turn.advance` reports it. -/
def finish (c : Config) (index : Nat) (w : Walk S) (t : Termination) : Stage S :=
  .finished w.best (w.stats c index t)

/-- Where iteration `t` goes once the stop hook answered `stop`: the walk ends on the stop hook
or after the last iteration, or the restart schedule counts the iteration, and the walk goes on
to the restart if one is due, else to the next iteration, cooled. -/
def afterStop (c : Config) (index t : Nat) (w : Walk S) (stop : Bool) : Stage S :=
  if stop then finish c index w .stopCondition
  else if t + 1 = c.maxIterations then finish c index w .maxIterations
  else
    let (due, r) := w.restarter.tick
    let w := { w with restarter := r }
    if due then .refresh t w else .walking (t + 1) { w with controller := w.controller.map (·.cool) }

/-- The access that worker `index` makes at a stage, and the stage it reaches. A done worker
makes none. -/
def access (cx : Setup σ ω S) (index : Nat) : Stage S → Turn σ ω S (Stage S)
  | .start => .evaluateStart <$> Turn.perform index cx.problem.randomSolution
  | .evaluateStart s => .offerStart s <$> Turn.evaluate cx.problem index 0 s
  | .offerStart s e => do
    let c := cx.config
    Turn.publish e s
    let controller ← if c.strategy = .adaptive then
        match Adaptive.Controller.reserve c.adaptive c.initialTemperature c.coolingRate with
        | .ok ctl => pure (some ctl)
        | .error message => throw (.workerPanicked index message)
      else pure none
    pure (.walking 0 {
      current := s, currentEnergy := e, best := s, bestEnergy := e, controller
      restarter := Restarter.start c.restartInterval
      temperature := Schedule.floorTemperature c.initialTemperature })
  | .walking t w => do
    if t ≥ cx.config.maxIterations then return finish cx.config index w .maxIterations
    let sh ← Turn.shared
    if sh.abort then return finish cx.config index w .aborted
    pure (.checkCancel t w)
  | .checkCancel t w => do
    let sh ← Turn.shared
    if cx.watchCancel && cx.observer.cancelRequested sh.observer then
      return finish cx.config index w .cancelled
    pure (.propose t w)
  | .propose t w => do
    let temperature := match w.controller with
      | some ctl => ctl.temperature
      | none => Schedule.temperature cx.config t
    let w := { w with temperature }
    .evaluate t w <$> Turn.perform index (cx.problem.neighbor w.current)
  | .evaluate t w candidate => do
    let candidateEnergy ← Turn.evaluate cx.problem index t candidate
    let taken ← Turn.draw (Acceptance.decide w.currentEnergy candidateEnergy w.temperature)
    let w := if taken then
        { w with current := candidate, currentEnergy := candidateEnergy
                 accepted := w.accepted + 1
                 improving := if candidateEnergy < w.currentEnergy then w.improving + 1
                   else w.improving }
      else w
    pure (.keep t { w with controller := w.controller.map fun ctl => (ctl.record taken).2 })
  | .keep t w => .report t <$> Turn.keepBest cx.config t w
  | .report t w => do
    match cx.observer.progress with
    | some f => Turn.hook index (f cx.status t w.currentEnergy w.current)
    | none => pure ()
    pure (.askStop t w)
  | .askStop t w => afterStop cx.config index t w <$> match cx.observer.stop with
    | some f => Turn.hook index (f t w.currentEnergy w.current)
    | none => pure false
  | .refresh t w => .evaluateFresh t w <$> Turn.perform index cx.problem.randomSolution
  | .evaluateFresh t w fresh => .offerFresh t w fresh <$> Turn.evaluate cx.problem index t fresh
  | .offerFresh t w fresh e => do
    let (sh, g) ← get
    let (adopted, r, reg) := w.restarter.offer fresh e sh.register
    set ({ sh with register := reg }, g)
    let w ← match adopted with
      | some (s, e) =>
        pure { w with restarter := r, current := s, currentEnergy := e, best := s, bestEnergy := e }
      | none => pure { w with restarter := r }
    pure (.walking (t + 1) { w with controller := w.controller.map (·.cool) })
  | .finished best stats => pure (.finished best stats)
  | .failed e => pure (.failed e)

end Stage

/-- A worker as a thread: its index (also its stream number), its stream and its stage. -/
structure Thread (S : Type) where
  index : Nat
  stream : Stream
  stage : Stage S

namespace Thread

variable {σ ω S : Type}

/-- The thread of a worker between two of its steps. -/
def ofWorker (wk : Worker S) : Thread S :=
  ⟨wk.index, wk.stream, .ofPhase wk.phase⟩

/-- The thread once the accesses from its stage have ended: at the stage reached, or failed,
with the abort flag raised. -/
def settle (th : Thread S) : EStateM.Result RunError (Shared σ ω S × Stream) (Stage S) →
    Shared σ ω S × Thread S
  | .ok st (sh, g) => (sh, { th with stream := g, stage := st })
  | .error e (sh, g) => ({ sh with abort := true }, { th with stream := g, stage := .failed e })

/-- The thread's next access. An access that fails raises the abort flag. A done thread stays
as it is. -/
def step (cx : Setup σ ω S) (sh : Shared σ ω S) (th : Thread S) : Shared σ ω S × Thread S :=
  if th.stage.done then (sh, th) else th.settle (th.stage.access cx th.index (sh, th.stream))

/-- The thread's best solution and report, or its failure; a thread that is not done has
none. -/
def outcome (th : Thread S) : Except RunError (S × Stats) :=
  match th.stage with
  | .finished best stats => .ok (best, stats)
  | .failed e => .error e
  | _ => .error .noSolution

end Thread

namespace Interleaved

variable {σ ω S : Type}

/-- Makes the accesses of the threads of `pool` in the order `schedule` names them; a name
outside the pool makes none. Any interleaving of the threads' accesses is such a schedule. -/
def run (cx : Setup σ ω S) (schedule : List Nat) (sh : Shared σ ω S)
    (pool : Array (Thread S)) : Shared σ ω S × Array (Thread S) :=
  schedule.foldl (fun (acc : Shared σ ω S × Array (Thread S)) i =>
    if h : i < acc.2.size then
      let (sh, th) := acc.2[i].step cx acc.1
      (sh, acc.2.set i th)
    else acc) (sh, pool)

/-- The threads `0, …, threads - 1` of a run, none started, thread `i` on stream `i` of
`seed`. -/
def pool (seed : UInt64) (threads : Nat) : Array (Thread S) :=
  (Engine.pool seed threads).map Thread.ofWorker

/-- The accesses a thread makes at most: three to start, at most ten in each of
`maxIterations` iterations, and one to find the iterations spent. -/
def accessBound (c : Config) : Nat :=
  10 * c.maxIterations + 4

/-- The shared state and the threads once a run is over: the threads make the accesses that
`schedule` names, and then each in turn runs to its end, thread `0` first. -/
def settle (cx : Setup σ ω S) (seed : UInt64) (threads : Nat) (schedule : List Nat)
    (sh : Shared σ ω S) : Shared σ ω S × Array (Thread S) :=
  run cx (schedule ++ Engine.inOrder threads (accessBound cx.config)) sh (pool seed threads)

/-- A run once admitted, with the threads interleaved access by access: the register is
emptied and the abort flag lowered, the threads run in the order `schedule` gives and then to
their ends, and their outcomes are concluded. -/
def launch (e : Engine σ ω S) (sh : Shared σ ω S) (threads : Nat) (watchCancel : Bool)
    (entropy : UInt64) (schedule : List Nat) : Run σ ω S :=
  let (sh, pool) := settle (e.setup watchCancel) (e.config.seed.getD entropy) threads schedule
    { sh with register := Register.empty, abort := false }
  Engine.conclude sh (pool.toList.map Thread.outcome)

end Interleaved

end Annealing
