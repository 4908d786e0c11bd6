import Annealing.Proofs.Iterations

/-!
# A worker's life among other workers

Between two steps of a worker the other workers of the run act, and all they can do to it is
change the shared state it reads next: the register, the problem's bookkeeping, the observer's
state and the abort flag. A worker's life is therefore its steps taken from any sequence of
shared states (`Worker.after`), and its log (`Worker.trace`) pairs each step with the shared
state it began from; the calls the worker made are the calls of those steps
(`Worker.problemLog`, `Worker.hookLog`). Nothing here fixes the other workers, so what is
proved of a life holds in every interleaving.

A failed worker stays failed, so a life that ends finished never failed on the way, and the
laws of such a life come from one induction over its steps (`Worker.life_induction`) that sees
only steps that did not fail: a start (`Worker.step_start`) or one of the exits of an
iteration (`Iterated`).
-/

namespace Annealing

open Annealing.Random

variable {σ ω S : Type}

/-- A call for a fresh solution. -/
def ProblemCall.isRandomSolution : ProblemCall S → Bool
  | .randomSolution _ => true
  | .energy .. | .neighbor .. => false

/-- A call for an energy. -/
def ProblemCall.isEnergy : ProblemCall S → Bool
  | .energy .. => true
  | .randomSolution _ | .neighbor .. => false

/-- A call for a neighbour. -/
def ProblemCall.isNeighbor : ProblemCall S → Bool
  | .neighbor .. => true
  | .randomSolution _ | .energy .. => false

/-- A valid configuration runs at least one iteration. -/
theorem Config.maxIterations_pos {c : Config} (h : c.validate = .ok ()) : 0 < c.maxIterations := by
  unfold Config.validate at h
  split at h
  · cases h
  split at h
  · cases h
  split at h
  · cases h
  · omega

namespace Worker

/-- The worker after its steps from the shared states `shs`, in order. -/
def after (cx : Setup σ ω S) : List (Shared σ ω S) → Worker S → Worker S
  | [], wk => wk
  | sh :: shs, wk => after cx shs (Worker.step cx sh wk).2

/-- The steps of a worker from the shared states `shs`: each shared state with the worker
that stepped from it. -/
def trace (cx : Setup σ ω S) : List (Shared σ ω S) → Worker S → List (Shared σ ω S × Worker S)
  | [], _ => []
  | sh :: shs, wk => (sh, wk) :: trace cx shs (Worker.step cx sh wk).2

/-- The problem calls of the steps `T`, in order. -/
def problemLog (cx : Setup σ ω S) (T : List (Shared σ ω S × Worker S)) : List (ProblemCall S) :=
  T.flatMap fun p => Worker.problemCalls cx p.1 p.2

/-- The hook calls of the steps `T`, in order. -/
def hookLog (cx : Setup σ ω S) (T : List (Shared σ ω S × Worker S)) : List (HookCall S) :=
  T.flatMap fun p => Worker.hookCalls cx p.1 p.2

variable {cx : Setup σ ω S}

@[simp] theorem problemLog_nil : problemLog cx [] = [] := rfl

@[simp] theorem hookLog_nil : hookLog cx [] = [] := rfl

@[simp] theorem problemLog_append (T T' : List (Shared σ ω S × Worker S)) :
    problemLog cx (T ++ T') = problemLog cx T ++ problemLog cx T' :=
  List.flatMap_append

@[simp] theorem hookLog_append (T T' : List (Shared σ ω S × Worker S)) :
    hookLog cx (T ++ T') = hookLog cx T ++ hookLog cx T' :=
  List.flatMap_append

@[simp] theorem problemLog_singleton (sh : Shared σ ω S) (wk : Worker S) :
    problemLog cx [(sh, wk)] = Worker.problemCalls cx sh wk :=
  List.flatMap_singleton _ _

@[simp] theorem hookLog_singleton (sh : Shared σ ω S) (wk : Worker S) :
    hookLog cx [(sh, wk)] = Worker.hookCalls cx sh wk :=
  List.flatMap_singleton _ _

/-- A done worker's step calls nothing. -/
theorem calls_of_done {sh : Shared σ ω S} {wk : Worker S} (h : wk.done = true) :
    Worker.problemCalls cx sh wk = [] ∧ Worker.hookCalls cx sh wk = [] := by
  unfold Worker.problemCalls Worker.hookCalls
  rw [step_of_done h]
  exact ⟨rfl, rfl⟩

theorem after_of_done {wk : Worker S} (h : wk.done = true) (shs : List (Shared σ ω S)) :
    after cx shs wk = wk := by
  induction shs with
  | nil => rfl
  | cons sh shs ih =>
      rw [after, step_of_done h]
      exact ih

/-- A life that ends failed has a first failing step: the steps before it leave the worker
not failed, and the step itself fails with the life's error, which a failed worker keeps. -/
theorem exists_failing_step {shs : List (Shared σ ω S)} {wk : Worker S}
    (hwk : ∀ e, wk.phase ≠ .failed e) {e : RunError} (h : (after cx shs wk).phase = .failed e) :
    ∃ shs₁ sh shs₂, shs = shs₁ ++ sh :: shs₂ ∧ (∀ e', (after cx shs₁ wk).phase ≠ .failed e') ∧
      (Worker.step cx sh (after cx shs₁ wk)).2.phase = .failed e := by
  induction shs generalizing wk with
  | nil => exact absurd h (hwk e)
  | cons sh shs ih =>
      by_cases hf : ∃ e', (Worker.step cx sh wk).2.phase = .failed e'
      · -- this step failed, and the worker kept its error to the end
        obtain ⟨e', he'⟩ := hf
        have hdone : (Worker.step cx sh wk).2.done = true := by simp [Worker.done, he']
        rw [after, after_of_done hdone, he'] at h
        cases h
        exact ⟨[], sh, shs, rfl, hwk, he'⟩
      · obtain ⟨shs₁, sh', shs₂, rfl, hok, hstep⟩ := ih (not_exists.1 hf) h
        exact ⟨sh :: shs₁, sh', shs₂, rfl, hok, hstep⟩

/-- A finished worker's outcome is its report. -/
theorem outcome_of_finished {wk : Worker S} {best : S} {st : Stats}
    (h : wk.phase = .finished best st) : wk.outcome = .ok (best, st) := by
  rw [Worker.outcome, h]

/-- A step that does not fail: a done worker's, which changes nothing; a start; or one of
the exits of an iteration. -/
theorem step_cases {sh : Shared σ ω S} {wk : Worker S}
    (hok : ∀ e, (Worker.step cx sh wk).2.phase ≠ .failed e) :
    (wk.done = true ∧ Worker.step cx sh wk = (sh, wk)) ∨
      (wk.phase = .start ∧ ∃ s v w, v.isNaN = false ∧
        Worker.problemCalls cx sh wk = [.randomSolution (.ok s), .energy s (.ok v)] ∧
        Worker.hookCalls cx sh wk = [] ∧
        (Worker.step cx sh wk).2.phase = .walking 0 w ∧ Walk.Fresh cx.config w) ∨
      ∃ t w, wk.phase = .walking t w ∧ Iterated cx sh wk.index t wk.stream w
        (Worker.problemCalls cx sh wk) (Worker.hookCalls cx sh wk) (Worker.step cx sh wk).2.phase := by
  obtain ⟨i, g, phase⟩ := wk
  cases phase with
  | start => exact .inr (.inl ⟨rfl, step_start hok⟩)
  | walking t w => exact .inr (.inr ⟨t, w, rfl, step_walking hok⟩)
  | finished best st => exact .inl ⟨rfl, step_of_done rfl⟩
  | failed e => exact .inl ⟨rfl, step_of_done rfl⟩

/-- Invariant induction over a life: a property of the steps so far and the worker, true at
the start and kept by every step that does not fail, holds after any steps from any shared
states that leave the worker not failed. -/
theorem life_induction (Inv : List (Shared σ ω S × Worker S) → Worker S → Prop)
    (hstep : ∀ T sh wk, Inv T wk → (∀ e, (Worker.step cx sh wk).2.phase ≠ .failed e) →
      Inv (T ++ [(sh, wk)]) (Worker.step cx sh wk).2)
    (shs : List (Shared σ ω S)) {T : List (Shared σ ω S × Worker S)} {wk : Worker S}
    (h : Inv T wk) (hok : ∀ e, (after cx shs wk).phase ≠ .failed e) :
    Inv (T ++ trace cx shs wk) (after cx shs wk) := by
  induction shs generalizing T wk with
  | nil => simpa [trace, after] using h
  | cons sh shs ih =>
      -- a failed step would leave the worker failed to the end
      have hstepok : ∀ e, (Worker.step cx sh wk).2.phase ≠ .failed e := by
        intro e he
        have hdone : (Worker.step cx sh wk).2.done = true := by simp [Worker.done, he]
        apply hok e
        rw [after, after_of_done hdone]
        exact he
      have := ih (hstep T sh wk h hstepok) hok
      simpa [trace, after] using this

end Worker

end Annealing
