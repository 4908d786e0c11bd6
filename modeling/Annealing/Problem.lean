import Annealing.Random.Shuffle

/-!
# Problems

A problem gives random solutions, their energies and random neighbours. Its operations
run in `Eval σ`: they may change the problem's own bookkeeping `σ` (counters shared by all
workers of a run), draw from the worker's stream, and end in a `Fault`. Bookkeeping done
before a fault is kept, as a counter bumped by a failing call must be.

A problem may fail in two ways: by reporting an error (`Fault.failed`), which the engine
passes on as a problem failure, or by stopping abnormally (`Fault.panicked`), as indexing
outside a table or sampling an empty range does.
-/

namespace Annealing

open Annealing.Random

/-- How a problem operation can end without a value. -/
inductive Fault
  /-- The problem reported an error. -/
  | failed (reason : String)
  /-- The operation stopped abnormally. -/
  | panicked (message : String)

/-- An operation of a problem with bookkeeping `σ`, drawing from a worker's stream. -/
abbrev Eval (σ : Type) := EStateM Fault (σ × Stream)

/-- A problem whose solutions are `S`, with bookkeeping `σ` shared by all workers. -/
structure Problem (σ S : Type) where
  randomSolution : Eval σ S
  energy : S → Eval σ Float
  neighbor : S → Eval σ S
  /-- The problem's own check of a final solution. -/
  validate : S → Bool := fun _ => true

namespace Eval

variable {σ α : Type}

/-- A draw from the worker's stream. -/
def draw (f : Stream → α × Stream) : Eval σ α :=
  fun (p, g) => let (a, g) := f g; .ok a (p, g)

/-- Changes the bookkeeping and returns a value read from it before the change. -/
def bump (f : σ → α × σ) : Eval σ α :=
  fun (p, g) => let (a, p) := f p; .ok a (p, g)

/-- The message of sampling from an empty range. -/
def emptyRange : String := "cannot sample empty range"

/-- A number in `[lo, hi)`; stops abnormally on an empty range. -/
def below (lo hi : Nat) : Eval σ Nat :=
  fun (p, g) =>
    match g.below lo hi with
    | some (k, g) => .ok k (p, g)
    | none => .error (.panicked emptyRange) (p, g)

/-- The message of indexing at `index` a sequence of length `size`. -/
def outOfBounds (size index : Nat) : String :=
  "index out of bounds: the len is " ++ toString size ++ " but the index is " ++ toString index

/-- The element at `i`; stops abnormally outside the array. -/
def at_ (xs : Array α) (i : Nat) : Eval σ α :=
  fun s =>
    if h : i < xs.size then .ok xs[i] s
    else .error (.panicked (outOfBounds xs.size i)) s

/-- Stops with a reported error. -/
def fail (reason : String) : Eval σ α :=
  fun s => .error (.failed reason) s

end Eval

end Annealing
