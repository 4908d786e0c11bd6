/-!
# The best solution seen so far

A `Register` holds the best solution any worker has reported, with its energy, and the
energy of every improvement in the order they were taken. An empty register reads as
energy `+∞`.

`offer` takes a solution when the register is empty and the energy is not NaN (even `+∞` is
taken then), or when its energy is strictly below the stored one. So `-0.0` does not displace
`0.0`, and the stored energy never rises.
-/

namespace Annealing

/-- The best solution reported so far and the history of improvements. -/
structure Register (S : Type) where
  best : Option (S × Float) := none
  /-- The energies taken, oldest first. -/
  history : Array Float := #[]

namespace Register

variable {S : Type}

/-- A register holding nothing. -/
def empty : Register S := {}

/-- The energy of the stored solution; `+∞` when empty. -/
def bestEnergy (r : Register S) : Float :=
  match r.best with
  | some (_, e) => e
  | none => 1.0 / 0.0

/-- Stores a solution and logs its energy. -/
def store (r : Register S) (energy : Float) (solution : S) : Register S :=
  { best := some (solution, energy), history := r.history.push energy }

/-- The compare-and-update made under the lock: a filled register keeps its solution unless
the energy is strictly below the stored one, and an empty register takes any energy. -/
def commit (r : Register S) (energy : Float) (solution : S) : Bool × Register S :=
  match r.best with
  | some (_, e) => if energy ≥ e then (false, r) else (true, r.store energy solution)
  | none => (true, r.store energy solution)

/-- Offers a solution with its energy: whether it was taken, and the register after. A NaN is
refused, and so, before the comparison under the lock, is an energy above the register's. -/
def offer (r : Register S) (energy : Float) (solution : S) : Bool × Register S :=
  if energy.isNaN || energy > r.bestEnergy then (false, r)
  else r.commit energy solution

end Register

/-! ## The register as threads share it

Threads share the register through a lock, and its energy is mirrored outside the lock so
that readers never wait and worse offers skip the lock. A call of `tryImprove` is then three
steps, between which other threads may act: it refuses a NaN, reads the mirror without the
lock and gives up at once on an energy above it, and otherwise takes the lock, compares with
the slot, and updates slot and mirror together. A worker's publication and the engine's
reconciliation add one step before these: they read the mirror and call only when the energy
is not above it. `Register.offer` is the whole call made at once. -/

/-- The register shared by threads: the slot, guarded by its lock, and the mirror of its
energy. -/
structure Mirrored (S : Type) where
  slot : Register S
  mirror : Float

/-- An empty register, as created or reset: the mirror reads `+∞`. -/
def Mirrored.empty {S : Type} : Mirrored S := ⟨Register.empty, 1.0 / 0.0⟩

/-- Where one thread's offer to the shared register is. -/
inductive Call (S : Type)
  /-- A guarded offer, before it compares its energy with the mirror. -/
  | guarded (energy : Float) (solution : S)
  /-- A call of `tryImprove`, before its NaN check. -/
  | start (energy : Float) (solution : S)
  /-- Before the unlocked read of the mirror. -/
  | checked (energy : Float) (solution : S)
  /-- Waiting for the lock. -/
  | locking (energy : Float) (solution : S)
  /-- Done, with whether the register took the solution. -/
  | returned (taken : Bool)

namespace Call

variable {S : Type}

/-- One step of a call on the shared register. -/
def step (m : Mirrored S) : Call S → Call S × Mirrored S
  | .guarded e s => (if e ≤ m.mirror then .start e s else .returned false, m)
  | .start e s => (if e.isNaN then .returned false else .checked e s, m)
  | .checked e s => (if e > m.mirror then .returned false else .locking e s, m)
  | .locking e s =>
    match m.slot.commit e s with
    | (true, slot) => (.returned true, ⟨slot, e⟩)
    | (false, _) => (.returned false, m)
  | .returned taken => (.returned taken, m)

end Call

/-- Steps the calls in the order `schedule` names them; a name outside the calls takes no
step. Any interleaving of the threads' offers is such a schedule. -/
def Mirrored.interleave {S : Type} (schedule : List Nat) (m : Mirrored S)
    (calls : Array (Call S)) : Mirrored S × Array (Call S) :=
  schedule.foldl (fun (acc : Mirrored S × Array (Call S)) i =>
    if h : i < acc.2.size then
      let (c, m) := acc.2[i].step acc.1
      (m, acc.2.set i c)
    else acc) (m, calls)

end Annealing
