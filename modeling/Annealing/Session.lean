import Annealing.Engine

/-!
# Calls on one engine

An engine serves one run at a time. A call is admitted only with at least one worker and while
no other run holds the engine: it raises the engine's running flag in one atomic exchange and
holds it until it returns, whichever way it returns, a guard clearing the flag then. Calls come
at any time, also from the hooks of the run that holds the engine, and a call that finds the
flag raised is refused at once, before it touches anything.

A session is the engine's side of this: the running flag, the state the calls share, and the
calls made on it, each pending, holding the engine with its workers, or returned. The calls
advance in any interleaving, one event at a time (`Session.interleave`): a pending call makes
its checks and, once admitted, empties the register and takes the engine; the call that holds
the engine steps one of its workers; or it runs its workers to their ends, concludes, and
returns, clearing the flag.
-/

namespace Annealing

/-- Where one call on an engine is. -/
inductive Request (S : Type)
  /-- Not started: a run with `threads` workers that reads the cancel token or not, with
  `entropy` the seed of a configuration without one. -/
  | pending (threads : Nat) (watchCancel : Bool) (entropy : UInt64)
  /-- Holding the engine, with its workers. -/
  | holding (threads : Nat) (watchCancel : Bool) (workers : Array (Worker S))
  /-- Returned, with its answer. -/
  | returned (result : Except RunError (Summary S))

/-- What happens next on an engine: call `k` starts, worker `i` of call `k` takes a step, or
call `k` runs to its end and returns. -/
inductive Event
  | start (k : Nat)
  | step (k i : Nat)
  | finish (k : Nat)

/-- An engine's running flag, the state its calls share, and the calls made on it. -/
structure Session (σ ω S : Type) where
  running : Bool
  shared : Shared σ ω S
  requests : Array (Request S)

namespace Session

variable {σ ω S : Type}

/-- Call `k` makes its checks. Without a worker, or while another run holds the engine, it is
refused and the engine is left as it is; else it raises the flag, empties the register, lowers
the abort flag and takes fresh workers. -/
def start (e : Engine σ ω S) (s : Session σ ω S) (k threads : Nat) (watchCancel : Bool)
    (entropy : UInt64) : Session σ ω S :=
  match Engine.checkStart threads s.running with
  | .error err => { s with requests := s.requests.setIfInBounds k (.returned (.error err)) }
  | .ok () =>
    { running := true
      shared := { s.shared with register := Register.empty, abort := false }
      requests := s.requests.setIfInBounds k
        (.holding threads watchCancel (Engine.pool (e.config.seed.getD entropy) threads)) }

/-- Worker `i` of call `k`, which holds the engine, takes a step. -/
def step (e : Engine σ ω S) (s : Session σ ω S) (k threads : Nat) (watchCancel : Bool)
    (workers : Array (Worker S)) (i : Nat) : Session σ ω S :=
  let next := Engine.interleave (e.setup watchCancel) [i] s.shared workers
  { s with
    shared := next.1
    requests := s.requests.setIfInBounds k (.holding threads watchCancel next.2) }

/-- Call `k`, which holds the engine, runs its workers to their ends, concludes, and returns,
clearing the running flag whatever its answer. -/
def finish (e : Engine σ ω S) (s : Session σ ω S) (k threads : Nat) (watchCancel : Bool)
    (workers : Array (Worker S)) : Session σ ω S :=
  let last := Engine.interleave (e.setup watchCancel)
    (Engine.inOrder threads (e.config.maxIterations + 1)) s.shared workers
  let run := Engine.conclude last.1 (last.2.toList.map Worker.outcome)
  { running := false
    shared := run.shared
    requests := s.requests.setIfInBounds k (.returned run.result) }

/-- One event; an event of a call that is not where it can take it changes nothing. -/
def handle (e : Engine σ ω S) (s : Session σ ω S) : Event → Session σ ω S
  | .start k =>
    match s.requests[k]? with
    | some (.pending threads watchCancel entropy) => s.start e k threads watchCancel entropy
    | _ => s
  | .step k i =>
    match s.requests[k]? with
    | some (.holding threads watchCancel workers) => s.step e k threads watchCancel workers i
    | _ => s
  | .finish k =>
    match s.requests[k]? with
    | some (.holding threads watchCancel workers) => s.finish e k threads watchCancel workers
    | _ => s

/-- The session after the events, in order. Any interleaving of the calls is such a list. -/
def interleave (e : Engine σ ω S) (events : List Event) (s : Session σ ω S) : Session σ ω S :=
  events.foldl (handle e) s

end Session

end Annealing
