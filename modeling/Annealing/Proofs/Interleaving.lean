import Annealing.Interleaved
import Annealing.Proofs.Pool

/-!
# Accesses that make a step

A worker's step is the accesses of its thread from one boundary to the next: from the start to
the first iteration, or from the start of an iteration to the next or to the end. Made with no
other thread's in between, they leave the shared state and the worker as the step does
(`Thread.steps_ofWorker`).

The proof follows the pieces of the step. `Stage.accessUntil` chains the accesses of one thread
up to the next boundary, and each piece of `Turn.iterate` is matched by the accesses it was cut
into: the checks by the `walking` and `checkCancel` accesses, `Turn.move` by `propose` and
`evaluate`, `Turn.keepBest` by `keep`, `Turn.observe` by `report` and `askStop`, a due restart by
`refresh`, `evaluateFresh` and `offerFresh`. The two reads of the abort flag and the cancel token
read the same state, since nothing between them writes it. `Stage.iterate_accesses` assembles
the pieces and `Stage.begin_accesses` does the same for the start.

Over a pool the threads of other workers are left alone, so a run of `Engine.interleave` is the
run of `Interleaved.run` that gives each step's accesses in a row (`Engine.interleave_refined`).
-/

namespace Annealing

open Annealing.Random

variable {σ ω S : Type}

namespace Stage

/-- Whether a worker at this stage is between two steps: before an iteration, or done. -/
def boundary : Stage S → Bool
  | .walking .. | .finished .. | .failed _ => true
  | .start | .evaluateStart _ | .offerStart .. | .checkCancel .. | .propose .. | .evaluate ..
  | .keep .. | .report .. | .askStop .. | .refresh .. | .evaluateFresh .. | .offerFresh .. => false

theorem boundary_of_done {st : Stage S} (h : st.done = true) : st.boundary = true := by
  cases st <;> first | rfl | cases h

/-- The accesses of worker `i` from stage `st`, with no other worker's in between, up to the next
boundary, `n` of them at most. -/
def accessUntil (cx : Setup σ ω S) (i : Nat) : Nat → Stage S → Turn σ ω S (Stage S)
  | 0, st => pure st
  | n + 1, st => st.access cx i >>= fun st' =>
    if st'.boundary then pure st' else accessUntil cx i n st'

/-! ## The pieces of an iteration -/

theorem shared_bind {α : Type} (f : Shared σ ω S → Turn σ ω S α) (x : Shared σ ω S × Stream) :
    (Turn.shared >>= f) x = f x.1 x :=
  rfl

/-- The checks before the move: the bound, then the abort flag and the cancel token, read as by
one read since nothing between the two reads writes the state. -/
theorem accessUntil_walking (cx : Setup σ ω S) (i t n : Nat) (w : Walk S) :
    accessUntil cx i (n + 2) (.walking t w) =
      if t ≥ cx.config.maxIterations then pure (finish cx.config i w .maxIterations) else
        Turn.shared >>= fun sh =>
          if sh.abort then pure (finish cx.config i w .aborted)
          else if cx.watchCancel && cx.observer.cancelRequested sh.observer then
            pure (finish cx.config i w .cancelled)
          else accessUntil cx i n (.propose t w) := by
  funext x
  by_cases ht : t ≥ cx.config.maxIterations
  · simp only [accessUntil, access, ht, ↓reduceIte, pure_bind, finish, boundary]
  simp only [accessUntil, access, ht, ↓reduceIte, bind_assoc, shared_bind]
  by_cases ha : x.1.abort = true
  · simp only [ha, ↓reduceIte, pure_bind, finish, boundary]
  simp only [ha, Bool.false_eq_true, ↓reduceIte, pure_bind, boundary, bind_assoc, shared_bind]
  by_cases hc : (cx.watchCancel && cx.observer.cancelRequested x.1.observer) = true
  · simp only [hc, ↓reduceIte, pure_bind, finish]
  · simp only [hc, Bool.false_eq_true, ↓reduceIte, pure_bind]

theorem accessUntil_propose (cx : Setup σ ω S) (i t n : Nat) (w : Walk S) :
    accessUntil cx i (n + 2) (.propose t w) =
      Turn.move cx i t w >>= fun w' => accessUntil cx i n (.keep t w') := by
  simp only [accessUntil, access, Turn.move, boundary, map_eq_pure_bind, bind_assoc, pure_bind]
  rfl

theorem accessUntil_keep (cx : Setup σ ω S) (i t n : Nat) (w : Walk S) :
    accessUntil cx i (n + 1) (.keep t w) =
      Turn.keepBest cx.config t w >>= fun w' => accessUntil cx i n (.report t w') := by
  simp only [accessUntil, access, boundary, map_eq_pure_bind, bind_assoc, pure_bind]
  rfl

theorem accessUntil_report (cx : Setup σ ω S) (i t n : Nat) (w : Walk S) :
    accessUntil cx i (n + 2) (.report t w) =
      Turn.observe cx i t w >>= fun stop =>
        if (afterStop cx.config i t w stop).boundary then pure (afterStop cx.config i t w stop)
        else accessUntil cx i n (afterStop cx.config i t w stop) := by
  simp only [accessUntil, access, boundary, Turn.observe, map_eq_pure_bind, pure_bind]
  -- the progress hook, if any, then the stop hook, if any
  rcases cx.observer.progress with _ | f <;> rcases cx.observer.stop with _ | g <;>
    simp only [pure_bind, bind_assoc, Bool.false_eq_true, ↓reduceIte]

/-- A restart that is due: the fresh solution is drawn, evaluated and offered by three
accesses. -/
theorem accessUntil_refresh (cx : Setup σ ω S) (i t : Nat) (w : Walk S) {r : Restarter}
    (h : w.restarter.tick = (true, r)) :
    (Turn.restart cx i t w >>= fun w' =>
        pure (ofPhase (.walking (t + 1) { w' with controller := w'.controller.map (·.cool) }))) =
      accessUntil cx i 3 (.refresh t { w with restarter := r }) := by
  simp only [Turn.restart, h, accessUntil, access, boundary, ofPhase, map_eq_pure_bind, bind_assoc,
    pure_bind, Bool.not_true, Bool.false_eq_true, ↓reduceIte]
  refine bind_congr fun fresh => bind_congr fun f => bind_congr fun x => bind_congr fun _ => ?_
  -- the walk adopts the fresh solution or keeps its own, on both sides
  rcases (r.offer fresh f x.1.register).1 with _ | ⟨s, e⟩ <;> rfl

/-- An iteration is the accesses from the start of the iteration to the next boundary, ten at
most. -/
theorem iterate_accesses (cx : Setup σ ω S) (i t : Nat) (w : Walk S) :
    (ofPhase <$> Turn.iterate cx i t w) = accessUntil cx i 10 (.walking t w) := by
  rw [accessUntil_walking cx i t 8 w, accessUntil_propose cx i t 6 w]
  simp only [Turn.iterate, Turn.advance, map_eq_pure_bind, bind_assoc]
  -- the checks, each of which may end the walk where it is
  by_cases ht : t ≥ cx.config.maxIterations
  · simp only [ht, ↓reduceIte, pure_bind, ofPhase, finish]
  simp only [ht, ↓reduceIte, bind_assoc]
  refine bind_congr fun sh => ?_
  by_cases ha : sh.abort = true
  · simp only [ha, ↓reduceIte, pure_bind, ofPhase, finish]
  by_cases hc : (cx.watchCancel && cx.observer.cancelRequested sh.observer) = true
  · simp only [ha, hc, Bool.false_eq_true, ↓reduceIte, pure_bind, ofPhase, finish]
  simp only [ha, hc, Bool.false_eq_true, ↓reduceIte, bind_assoc]
  -- the move, the local best and the hooks, piece by piece
  refine bind_congr fun w₁ => ?_
  rw [accessUntil_keep cx i t 5 w₁]
  refine bind_congr fun w₂ => ?_
  rw [accessUntil_report cx i t 3 w₂]
  refine bind_congr fun stop => ?_
  -- the ends of the walk, then the restart if one is due
  cases stop
  · by_cases hend : t + 1 = cx.config.maxIterations
    · simp only [afterStop, hend, Bool.false_eq_true, ↓reduceIte, pure_bind, ofPhase, finish,
        boundary]
    rcases htick : w₂.restarter.tick with ⟨_ | _, r⟩
    · simp only [afterStop, hend, htick, Bool.false_eq_true, ↓reduceIte, pure_bind, boundary,
        Turn.restart, Bool.not_false, ofPhase]
    · simp only [afterStop, hend, htick, Bool.false_eq_true, ↓reduceIte, pure_bind, boundary,
        bind_assoc]
      exact accessUntil_refresh cx i t w₂ htick
  · simp only [afterStop, ↓reduceIte, pure_bind, ofPhase, finish, boundary]

/-- The start of a walk is the three accesses from the start to the first iteration. -/
theorem begin_accesses (cx : Setup σ ω S) (i : Nat) :
    ((fun w => ofPhase (.walking 0 w)) <$> Turn.begin cx i) = accessUntil cx i 3 .start := by
  simp only [Turn.begin, accessUntil, access, boundary, ofPhase, map_eq_pure_bind, bind_assoc,
    pure_bind, Bool.false_eq_true, ↓reduceIte]
  refine bind_congr fun s => bind_congr fun e => bind_congr fun _ => ?_
  -- the adaptive controller, reserved or not
  split
  · rcases Adaptive.Controller.reserve cx.config.adaptive cx.config.initialTemperature
      cx.config.coolingRate with message | ctl
    · rfl
    · simp only [pure_bind, ↓reduceIte]
  · simp only [pure_bind, ↓reduceIte]

end Stage

/-! ## Threads that run alone -/

namespace Thread

/-- `k` accesses of one thread with no other thread's in between. -/
def steps (cx : Setup σ ω S) : Nat → Shared σ ω S → Thread S → Shared σ ω S × Thread S
  | 0, sh, th => (sh, th)
  | k + 1, sh, th => steps cx k (th.step cx sh).1 (th.step cx sh).2

theorem step_of_done {cx : Setup σ ω S} {sh : Shared σ ω S} {th : Thread S}
    (h : th.stage.done = true) : th.step cx sh = (sh, th) := by
  simp [step, h]

/-- The accesses up to the next boundary, made one at a time: as many steps of the thread. -/
theorem steps_accessUntil (cx : Setup σ ω S) (n i : Nat) (st : Stage S) (h : st.done = false)
    (sh : Shared σ ω S) (g : Stream) :
    ∃ k ≤ n, steps cx k sh ⟨i, g, st⟩ =
      settle ⟨i, g, st⟩ (st.accessUntil cx i n (sh, g)) := by
  induction n generalizing st sh g with
  | zero => exact ⟨0, le_rfl, rfl⟩
  | succ n ih =>
      have hstep : (⟨i, g, st⟩ : Thread S).step cx sh =
          settle ⟨i, g, st⟩ (st.access cx i (sh, g)) := by
        simp [step, h]
      simp only [Stage.accessUntil]
      show ∃ k ≤ n + 1, _ = settle _ (EStateM.bind _ _ (sh, g))
      unfold EStateM.bind
      rcases hacc : st.access cx i (sh, g) with ⟨st₁, ⟨sh₁, g₁⟩⟩ | ⟨e, ⟨sh₁, g₁⟩⟩
      · rw [hacc] at hstep
        by_cases hb : st₁.boundary = true
        · -- the access reached a boundary: one step
          refine ⟨1, by omega, ?_⟩
          simp only [steps, hstep, settle, hb, ↓reduceIte]
          rfl
        · -- the thread goes on from a stage that is not done
          have hnd : st₁.done = false := by
            cases hd : st₁.done
            · rfl
            · exact absurd (Stage.boundary_of_done hd) hb
          obtain ⟨k, hk, hsteps⟩ := ih st₁ hnd sh₁ g₁
          refine ⟨k + 1, by omega, ?_⟩
          simp only [steps, hstep, settle, hb, Bool.false_eq_true, ↓reduceIte]
          exact hsteps
      · rw [hacc] at hstep
        refine ⟨1, by omega, ?_⟩
        simp only [steps, hstep, settle]

/-- The accesses of a worker's step, made in a row, make that step: a thread at the stage of a
worker's phase reaches, after at most ten accesses, the stage of the phase the step reaches, with
the same shared state. -/
theorem steps_ofWorker (cx : Setup σ ω S) (sh : Shared σ ω S) (wk : Worker S) :
    ∃ k ≤ 10, steps cx k sh (ofWorker wk) =
      ((wk.step cx sh).1, ofWorker (wk.step cx sh).2) := by
  obtain ⟨i, g, phase⟩ := wk
  cases phase with
  | start =>
      obtain ⟨k, hk, hsteps⟩ := steps_accessUntil cx 3 i .start rfl sh g
      refine ⟨k, by omega, ?_⟩
      rw [show ofWorker ⟨i, g, .start⟩ = ⟨i, g, .start⟩ from rfl, hsteps,
        ← Stage.begin_accesses]
      show settle _ (EStateM.map _ _ (sh, g)) = _
      simp only [Worker.step, EStateM.map]
      rcases Turn.begin cx i (sh, g) with ⟨w, ⟨sh', g'⟩⟩ | ⟨e, ⟨sh', g'⟩⟩ <;> rfl
  | walking t w =>
      obtain ⟨k, hk, hsteps⟩ := steps_accessUntil cx 10 i (.walking t w) rfl sh g
      refine ⟨k, hk, ?_⟩
      rw [show ofWorker ⟨i, g, .walking t w⟩ = ⟨i, g, .walking t w⟩ from rfl, hsteps,
        ← Stage.iterate_accesses]
      show settle _ (EStateM.map _ _ (sh, g)) = _
      simp only [Worker.step, EStateM.map]
      rcases Turn.iterate cx i t w (sh, g) with ⟨p, ⟨sh', g'⟩⟩ | ⟨e, ⟨sh', g'⟩⟩ <;> rfl
  | finished best st => exact ⟨0, by omega, rfl⟩
  | failed e => exact ⟨0, by omega, rfl⟩

end Thread

/-! ## Runs -/

namespace Interleaved

/-- Thread `i` of the pool makes its next access, if there is such a thread. -/
def stepAt (cx : Setup σ ω S) (i : Nat) (st : Shared σ ω S × Array (Thread S)) :
    Shared σ ω S × Array (Thread S) :=
  if h : i < st.2.size then
    let next := st.2[i].step cx st.1
    (next.1, st.2.set i next.2)
  else st

theorem run_eq_foldl (cx : Setup σ ω S) (schedule : List Nat) (sh : Shared σ ω S)
    (pool : Array (Thread S)) :
    run cx schedule sh pool = schedule.foldl (fun st i => stepAt cx i st) (sh, pool) :=
  rfl

theorem run_append (cx : Setup σ ω S) (first rest : List Nat) (sh : Shared σ ω S)
    (pool : Array (Thread S)) :
    run cx (first ++ rest) sh pool =
      run cx rest (run cx first sh pool).1 (run cx first sh pool).2 := by
  rw [run_eq_foldl, run_eq_foldl, run_eq_foldl, List.foldl_append]

/-- `k` accesses in a row of thread `i` are `k` steps of it alone, the others untouched. -/
theorem run_replicate (cx : Setup σ ω S) (k : Nat) {i : Nat} (sh : Shared σ ω S)
    (pool : Array (Thread S)) (hi : i < pool.size) :
    run cx (List.replicate k i) sh pool =
      ((pool[i].steps cx k sh).1, pool.set i (pool[i].steps cx k sh).2) := by
  induction k generalizing sh pool with
  | zero => simp [run, Thread.steps]
  | succ k ih =>
      rw [List.replicate_succ, show i :: List.replicate k i = [i] ++ List.replicate k i from rfl,
        run_append]
      have hfirst : run cx [i] sh pool = ((pool[i].step cx sh).1, pool.set i (pool[i].step cx sh).2) := by
        simp [run, hi]
      rw [hfirst, ih _ _ (by simpa using hi)]
      simp [Thread.steps, Array.set_set]

end Interleaved

/-- Every run of `Engine.interleave` is a run of `Interleaved.run`: the schedule that gives each
step's accesses in a row reaches the same shared state, with every thread at the stage of its
worker's phase. -/
theorem Engine.interleave_refined (cx : Setup σ ω S) (schedule : List Nat) (sh : Shared σ ω S)
    (pool : Array (Worker S)) :
    ∃ fine, Interleaved.run cx fine sh (pool.map Thread.ofWorker) =
      ((Engine.interleave cx schedule sh pool).1,
        (Engine.interleave cx schedule sh pool).2.map Thread.ofWorker) := by
  induction schedule generalizing sh pool with
  | nil => exact ⟨[], rfl⟩
  | cons i rest ih =>
      rw [show i :: rest = [i] ++ rest from rfl, Engine.interleave_append]
      by_cases hi : i < pool.size
      · -- the step of worker `i` is as many accesses of its thread
        obtain ⟨k, -, hsteps⟩ := Thread.steps_ofWorker cx sh pool[i]
        have hfirst : Engine.interleave cx [i] sh pool =
            ((pool[i].step cx sh).1, pool.set i (pool[i].step cx sh).2) := by
          simp [Engine.interleave, hi]
        obtain ⟨fine, hfine⟩ := ih (pool[i].step cx sh).1 (pool.set i (pool[i].step cx sh).2)
        refine ⟨List.replicate k i ++ fine, ?_⟩
        rw [Interleaved.run_append, Interleaved.run_replicate cx k sh _ (by simpa using hi),
          Array.getElem_map, hsteps, hfirst]
        simpa [Array.map_set] using hfine
      · have hfirst : Engine.interleave cx [i] sh pool = (sh, pool) := by
          simp [Engine.interleave, hi]
        rw [hfirst]
        exact ih sh pool

end Annealing
