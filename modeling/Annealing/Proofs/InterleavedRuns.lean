import Annealing.Proofs.PendingOffers
import Annealing.Proofs.BestEnergy
import Annealing.Proofs.Reproducible

/-!
# Runs whose workers interleave access by access

What holds of the engine's runs when the workers interleave at every shared access: the logging
run is the plain run (`Interleaved.launch_recording`), every thread is done once the run has
settled (`Interleaved.settled_done`), and the register ends holding the least energy that the run
computed, the result of a successful run being that evaluation, the least of the workers' bests,
with the register's improvements (`Interleaved.register_holds_least_energy`).

A thread is done after at most `accessBound` accesses: each access from a stage whose iteration
is in range (`Stage.Bounded`) reaches one with fewer accesses left (`Stage.left`). The final
sweep gives each thread that many accesses, so every offer has been made by then and the ledger
of a step boundary holds; what is left is the engine's conclusion, read as for `Engine.launch`
on the workers the threads end as (`Thread.toWorker`).
-/

namespace Annealing

open Annealing.Random

variable {σ ω S : Type}

/-! ## The logging run is the plain run -/

namespace Setup

/-- Every access of the logging run is the plain run's, seen without the log. -/
theorem access_recording (cx : Setup σ ω S) (i : Nat) (st : Stage S) :
    Annealing.Lockstep Unlogs Eq (st.access cx.recording i) (st.access cx i) := by
  have h := cx.lockstep_recording
  -- a value the two runs agree on goes on to the same stage
  have hsame : ∀ {α : Type} (f : α → Stage S),
      ∀ a b : α, a = b → Annealing.Lockstep Unlogs Eq
        (pure (f a) : Turn (σ × List (S × Float)) ω S (Stage S)) (pure (f b)) := by
    rintro α f a _ rfl
    exact Annealing.Lockstep.ret rfl
  cases st with
  | start | refresh =>
      simp only [Stage.access, map_eq_pure_bind]
      exact Annealing.Lockstep.bind (h.randomSolution i) (hsame _)
  | evaluateStart s =>
      simp only [Stage.access, map_eq_pure_bind]
      exact Annealing.Lockstep.bind (h.evaluate i 0 s) (hsame _)
  | evaluateFresh t w fresh =>
      simp only [Stage.access, map_eq_pure_bind]
      exact Annealing.Lockstep.bind (h.evaluate i t fresh) (hsame _)
  | offerStart s v =>
      simp only [Stage.access, h.config]
      refine Annealing.Lockstep.bind (h.publish v s) fun _ _ _ => ?_
      -- the adaptive controller, whose reservation may fail
      split
      · split
        · exact Annealing.Lockstep.bind (Annealing.Lockstep.ret rfl) (hsame _)
        · exact Annealing.Lockstep.bind (Annealing.Lockstep.fail _) (hsame _)
      · exact Annealing.Lockstep.bind (Annealing.Lockstep.ret rfl) (hsame _)
  | walking t w =>
      simp only [Stage.access, h.config]
      split
      · exact Annealing.Lockstep.ret rfl
      · refine Annealing.Lockstep.bind h.shared fun a b hab => ?_
        rw [hab.1]
        split <;> exact Annealing.Lockstep.ret rfl
  | checkCancel t w =>
      simp only [Stage.access, h.config, h.observer, h.watchCancel]
      refine Annealing.Lockstep.bind h.shared fun a b hab => ?_
      have hcancel : cx.observer.cancelRequested a.observer =
          cx.observer.cancelRequested b.observer := hab.2
      rw [hcancel]
      split <;> exact Annealing.Lockstep.ret rfl
  | propose t w =>
      simp only [Stage.access, h.config, map_eq_pure_bind]
      exact Annealing.Lockstep.bind (h.neighbor i _) (hsame _)
  | evaluate t w cand =>
      simp only [Stage.access]
      refine Annealing.Lockstep.bind (h.evaluate i t cand) fun c _ hc => ?_
      subst hc
      exact Annealing.Lockstep.bind (h.draw _) (hsame _)
  | keep t w =>
      simp only [Stage.access, h.config, map_eq_pure_bind]
      exact Annealing.Lockstep.bind (h.keepBest _ t w) (hsame _)
  | report t w =>
      simp only [Stage.access, h.observer, h.status]
      rcases hf : cx.observer.progress with _ | f
      · exact Annealing.Lockstep.ret rfl
      · refine Annealing.Lockstep.bind (h.progress i f hf _ _ _ _) fun _ _ _ => ?_
        exact Annealing.Lockstep.ret rfl
  | askStop t w =>
      simp only [Stage.access, h.config, h.observer, map_eq_pure_bind]
      rcases hg : cx.observer.stop with _ | g
      · exact Annealing.Lockstep.bind (Annealing.Lockstep.ret rfl) (hsame _)
      · exact Annealing.Lockstep.bind (h.stop i g hg _ _ _) (hsame _)
  | offerFresh t w fresh f =>
      -- the offer reads and writes the register, which the log leaves alone
      simp only [Stage.access]
      refine Annealing.Lockstep.bind Lockstep.get fun x₁ x₂ hx => ?_
      subst hx
      obtain ⟨sh, g⟩ := x₁
      dsimp only
      rw [Shared.unlogged_register]
      rcases w.restarter.offer fresh f sh.register with ⟨adopted, r', reg⟩
      dsimp only
      refine Annealing.Lockstep.bind (Annealing.Lockstep.set rfl) fun _ _ _ => ?_
      rcases adopted with _ | ⟨s, v⟩
      · exact Annealing.Lockstep.bind (Annealing.Lockstep.ret rfl) (hsame _)
      · exact Annealing.Lockstep.bind (Annealing.Lockstep.ret rfl) (hsame _)
  | finished best st => exact Annealing.Lockstep.ret rfl
  | failed e => exact Annealing.Lockstep.ret rfl

end Setup

/-- A thread's access in a logging run is its access in the plain run, seen without the log. -/
theorem Thread.step_unlogged (cx : Setup σ ω S) (sh : Shared (σ × List (S × Float)) ω S)
    (th : Thread S) :
    th.step cx sh.unlogged = ((th.step cx.recording sh).1.unlogged, (th.step cx.recording sh).2) := by
  by_cases hd : th.stage.done = true
  · simp [Thread.step, hd]
  simp only [Thread.step, hd, Bool.false_eq_true, ↓reduceIte]
  have hl := cx.access_recording th.index th.stage (sh, th.stream) (sh.unlogged, th.stream) rfl
  revert hl
  rcases th.stage.access cx.recording th.index (sh, th.stream) with
    ⟨a, ⟨y₁, g₁⟩⟩ | ⟨e₁, ⟨y₁, g₁⟩⟩ <;>
    rcases th.stage.access cx th.index (sh.unlogged, th.stream) with
      ⟨b, ⟨y₂, g₂⟩⟩ | ⟨e₂, ⟨y₂, g₂⟩⟩
  · rintro ⟨rfl, hy⟩
    cases hy
    rfl
  · exact fun h => (h : False).elim
  · exact fun h => (h : False).elim
  · rintro ⟨rfl, hy⟩
    cases hy
    rfl

namespace Interleaved

theorem stepAt_unlogged (cx : Setup σ ω S) (i : Nat)
    (st : Shared (σ × List (S × Float)) ω S × Array (Thread S)) :
    stepAt cx i (st.1.unlogged, st.2) =
      ((stepAt cx.recording i st).1.unlogged, (stepAt cx.recording i st).2) := by
  unfold stepAt
  split
  · dsimp only
    rw [Thread.step_unlogged]
  · rfl

theorem run_unlogged (cx : Setup σ ω S) (schedule : List Nat)
    (sh : Shared (σ × List (S × Float)) ω S) (pool : Array (Thread S)) :
    run cx schedule sh.unlogged pool =
      ((run cx.recording schedule sh pool).1.unlogged, (run cx.recording schedule sh pool).2) := by
  rw [run_eq_foldl, run_eq_foldl]
  induction schedule generalizing sh pool with
  | nil => rfl
  | cons i rest ih =>
      simp only [List.foldl_cons]
      rw [show (sh.unlogged, pool) = ((sh, pool).1.unlogged, (sh, pool).2) from rfl,
        stepAt_unlogged]
      exact ih _ _

/-- The logging run is the plain run: the same answer, and the same shared state but for the
log. -/
theorem launch_recording (e : Engine σ ω S) (sh : Shared σ ω S) (threads : Nat)
    (watchCancel : Bool) (entropy : UInt64) (schedule : List Nat) :
    (launch e.recording sh.logged threads watchCancel entropy schedule).result =
        (launch e sh threads watchCancel entropy schedule).result ∧
      (launch e.recording sh.logged threads watchCancel entropy schedule).shared.unlogged =
        (launch e sh threads watchCancel entropy schedule).shared := by
  have hsetup : e.recording.setup watchCancel = (e.setup watchCancel).recording := rfl
  have hconfig : ((e.setup watchCancel).recording).config = e.config := rfl
  have hseed : e.recording.config = e.config := rfl
  have hstart : ({ sh with register := Register.empty, abort := false } : Shared σ ω S) =
      Shared.unlogged { sh.logged with register := Register.empty, abort := false } := rfl
  simp only [launch, settle, hsetup, hconfig, hseed]
  rw [hstart, run_unlogged, Engine.conclude_unlogged]
  exact ⟨rfl, rfl⟩

end Interleaved

/-! ## Every thread comes to its end -/

namespace Stage

/-- The accesses a worker at this stage makes at most before it is done: ten for each iteration
left, fewer the further it is into the current one. -/
def left (c : Config) : Stage S → Nat
  | .start => 10 * c.maxIterations + 4
  | .evaluateStart _ => 10 * c.maxIterations + 3
  | .offerStart .. => 10 * c.maxIterations + 2
  | .walking t _ => 10 * (c.maxIterations - t) + 1
  | .checkCancel t _ => 10 * (c.maxIterations - t)
  | .propose t _ => 10 * (c.maxIterations - t) - 1
  | .evaluate t _ _ => 10 * (c.maxIterations - t) - 2
  | .keep t _ => 10 * (c.maxIterations - t) - 3
  | .report t _ => 10 * (c.maxIterations - t) - 4
  | .askStop t _ => 10 * (c.maxIterations - t) - 5
  | .refresh t _ => 10 * (c.maxIterations - t) - 6
  | .evaluateFresh t _ _ => 10 * (c.maxIterations - t) - 7
  | .offerFresh t _ _ _ => 10 * (c.maxIterations - t) - 8
  | .finished .. | .failed _ => 0

/-- The iteration of a stage is in range: at most `maxIterations` before an iteration, below it
inside one, and below the last one before a restart. -/
def Bounded (c : Config) : Stage S → Prop
  | .start | .evaluateStart _ | .offerStart .. | .finished .. | .failed _ => True
  | .walking t _ => t ≤ c.maxIterations
  | .checkCancel t _ | .propose t _ | .evaluate t _ _ | .keep t _ | .report t _
  | .askStop t _ => t < c.maxIterations
  | .refresh t _ | .evaluateFresh t _ _ | .offerFresh t _ _ _ => t + 1 < c.maxIterations

theorem left_le_bound {c : Config} {st : Stage S} (hb : st.Bounded c) :
    st.left c ≤ Interleaved.accessBound c := by
  unfold Interleaved.accessBound
  cases st <;> simp only [left] <;> omega

theorem done_of_left {c : Config} {st : Stage S} (hb : st.Bounded c) (h : st.left c = 0) :
    st.done = true := by
  cases st <;> simp only [Bounded, left] at hb h <;> first | rfl | omega

variable {cx : Setup σ ω S} {i : Nat} {st st' : Stage S}
  {x y : Shared (σ × List (S × Float)) ω S × Stream}

/-- Every access from a stage in range reaches one in range with fewer accesses left. -/
theorem access_left (hb : st.Bounded cx.config) (hnd : st.done = false)
    (h : st.access cx.recording i x = .ok st' y) :
    st'.Bounded cx.config ∧ st'.left cx.config < st.left cx.config := by
  cases st with
  | start =>
      obtain ⟨-, s, rfl⟩ := access_start_ok h
      exact ⟨trivial, by simp only [left]; omega⟩
  | evaluateStart s =>
      obtain ⟨v, rfl, -⟩ := access_evaluateStart_ok h
      exact ⟨trivial, by simp only [left]; omega⟩
  | offerStart s v =>
      obtain ⟨-, -, w, rfl, -⟩ := access_offerStart_ok h
      exact ⟨Nat.zero_le _, by simp only [left]; omega⟩
  | walking t w =>
      have ht : t ≤ cx.config.maxIterations := hb
      obtain ⟨-, ⟨rfl, hlt⟩ | ⟨tm, rfl⟩⟩ := access_walking_ok h
      · exact ⟨hlt, by simp only [left]; omega⟩
      · exact ⟨trivial, by simp only [finish, left]; omega⟩
  | checkCancel t w =>
      have ht : t < cx.config.maxIterations := hb
      obtain ⟨-, rfl | ⟨tm, rfl⟩⟩ := access_checkCancel_ok h
      · exact ⟨ht, by simp only [left]; omega⟩
      · exact ⟨trivial, by simp only [finish, left]; omega⟩
  | propose t w =>
      have ht : t < cx.config.maxIterations := hb
      obtain ⟨-, w', cand, rfl, -⟩ := access_propose_ok h
      exact ⟨ht, by simp only [left]; omega⟩
  | evaluate t w cand =>
      have ht : t < cx.config.maxIterations := hb
      obtain ⟨-, c, w', rfl, -⟩ := access_evaluate_ok h
      exact ⟨ht, by simp only [left]; omega⟩
  | keep t w =>
      have ht : t < cx.config.maxIterations := hb
      obtain ⟨w', rfl, -⟩ := access_keep_ok h
      exact ⟨ht, by simp only [left]; omega⟩
  | report t w =>
      have ht : t < cx.config.maxIterations := hb
      obtain ⟨-, rfl⟩ := access_report_ok h
      exact ⟨ht, by simp only [left]; omega⟩
  | askStop t w =>
      have ht : t < cx.config.maxIterations := hb
      obtain ⟨-, stop, rfl⟩ := access_askStop_ok h
      rcases afterStop_cases cx.config i t w stop with ⟨tm, hend⟩ | ⟨w', -, hnot, hnext | hnext⟩
      · rw [hend]
        exact ⟨trivial, by simp only [finish, left]; omega⟩
      · rw [hnext]
        exact ⟨show t + 1 < cx.config.maxIterations by omega, by simp only [left]; omega⟩
      · rw [hnext]
        exact ⟨show t + 1 ≤ cx.config.maxIterations by omega, by simp only [left]; omega⟩
  | refresh t w =>
      have ht : t + 1 < cx.config.maxIterations := hb
      obtain ⟨-, fresh, rfl⟩ := access_refresh_ok h
      exact ⟨ht, by simp only [left]; omega⟩
  | evaluateFresh t w fresh =>
      have ht : t + 1 < cx.config.maxIterations := hb
      obtain ⟨f, rfl, -⟩ := access_evaluateFresh_ok h
      exact ⟨ht, by simp only [left]; omega⟩
  | offerFresh t w fresh f =>
      have ht : t + 1 < cx.config.maxIterations := hb
      obtain ⟨-, -, w', rfl, -⟩ := access_offerFresh_ok h
      exact ⟨show t + 1 ≤ cx.config.maxIterations by omega, by simp only [left]; omega⟩
  | finished best st => cases hnd
  | failed e => cases hnd

end Stage

namespace Thread

/-- The thread after accesses from the shared states `shs`, one from each, in order. -/
def after (cx : Setup σ ω S) : List (Shared σ ω S) → Thread S → Thread S
  | [], th => th
  | sh :: shs, th => after cx shs (th.step cx sh).2

theorem after_of_done {cx : Setup σ ω S} {th : Thread S} (h : th.stage.done = true)
    (shs : List (Shared σ ω S)) : after cx shs th = th := by
  induction shs with
  | nil => rfl
  | cons sh shs ih =>
      rw [after, step_of_done h]
      exact ih

/-- A thread in range is done after as many accesses as it has left, from any shared states. -/
theorem done_after {cx : Setup σ ω S} (shs : List (Shared (σ × List (S × Float)) ω S))
    {th : Thread S} (hb : th.stage.Bounded cx.config)
    (hk : th.stage.left cx.config ≤ shs.length) :
    (after cx.recording shs th).stage.done = true := by
  induction shs generalizing th with
  | nil => exact Stage.done_of_left hb (Nat.le_zero.1 hk)
  | cons sh shs ih =>
      by_cases hd : th.stage.done = true
      · rw [after_of_done hd]
        exact hd
      rw [after]
      -- the access leaves the thread in range with fewer accesses left, or failed
      have hnd : th.stage.done = false := Bool.eq_false_iff.2 hd
      simp only [step, hnd, Bool.false_eq_true, ↓reduceIte]
      rcases h : th.stage.access cx.recording th.index (sh, th.stream) with
        ⟨st', ⟨y, g⟩⟩ | ⟨e, ⟨y, g⟩⟩
      · obtain ⟨hb', hlt⟩ := Stage.access_left hb hnd h
        have hk' : st'.left cx.config ≤ shs.length := by
          simp only [List.length_cons] at hk
          omega
        exact ih hb' hk'
      · rw [after_of_done rfl]
        rfl

end Thread

namespace Interleaved

theorem size_stepAt (cx : Setup σ ω S) (i : Nat) (st : Shared σ ω S × Array (Thread S)) :
    (stepAt cx i st).2.size = st.2.size := by
  unfold stepAt
  split
  · simp
  · rfl

/-- In any interleaving each thread makes its accesses from the shared state as it finds it,
each time the schedule names it, and only then. -/
theorem run_life (cx : Setup σ ω S) (schedule : List Nat) (sh : Shared σ ω S)
    (pool : Array (Thread S)) {j : Nat} (hj : j < pool.size) :
    ∃ shs : List (Shared σ ω S), shs.length = schedule.count j ∧
      ∀ hj' : j < (run cx schedule sh pool).2.size,
        (run cx schedule sh pool).2[j] = Thread.after cx shs pool[j] := by
  rw [run_eq_foldl]
  induction schedule generalizing sh pool with
  | nil => exact ⟨[], rfl, fun _ => rfl⟩
  | cons i rest ih =>
      have hj₁ : j < (stepAt cx i (sh, pool)).2.size := by rw [size_stepAt]; exact hj
      obtain ⟨shs, hlen, hlife⟩ := ih (stepAt cx i (sh, pool)).1 (stepAt cx i (sh, pool)).2 hj₁
      simp only [List.foldl_cons]
      by_cases hij : i = j
      · -- thread `j` makes an access first, from `sh`
        subst hij
        refine ⟨sh :: shs, by rw [List.length_cons, hlen, List.count_cons_self], fun hj' => ?_⟩
        rw [hlife hj']
        unfold stepAt
        simp only [dif_pos hj, Array.getElem_set_self]
        rfl
      · -- another thread makes one, and thread `j` is as it was
        refine ⟨shs, by rw [hlen, List.count_cons_of_ne hij], fun hj' => ?_⟩
        rw [hlife hj']
        congr 1
        unfold stepAt
        split
        · next hi => exact Array.getElem_set_ne hi hj hij
        · rfl

theorem size_run (cx : Setup σ ω S) (schedule : List Nat) (sh : Shared σ ω S)
    (pool : Array (Thread S)) : (run cx schedule sh pool).2.size = pool.size := by
  rw [run_eq_foldl]
  induction schedule generalizing sh pool with
  | nil => rfl
  | cons i rest ih =>
      have hsize := size_stepAt cx i (sh, pool)
      simp only [List.foldl_cons]
      generalize stepAt cx i (sh, pool) = st at hsize ⊢
      exact (ih st.1 st.2).trans hsize

/-- Once a logging run has settled, every thread is done. -/
theorem settled_done (cx : Setup σ ω S) (seed : UInt64) (threads : Nat) (schedule : List Nat)
    (sh : Shared (σ × List (S × Float)) ω S) {j : Nat}
    (hj : j < (settle cx.recording seed threads schedule sh).2.size) :
    (settle cx.recording seed threads schedule sh).2[j].stage.done = true := by
  unfold settle at hj ⊢
  have hjt : j < threads := by rw [size_run, size_pool] at hj; exact hj
  have hj₀ : j < (pool seed threads : Array (Thread S)).size := by rw [size_pool]; exact hjt
  obtain ⟨shs, hlen, hlife⟩ := run_life cx.recording
    (schedule ++ Engine.inOrder threads (accessBound cx.recording.config)) sh
    (pool seed threads) hj₀
  rw [hlife hj, getElem_pool]
  -- the run to the end gives the thread every access it can make
  refine Thread.done_after shs trivial ?_
  rw [hlen, List.count_append, Engine.count_inOrder hjt]
  have hconfig : cx.recording.config = cx.config := rfl
  show 10 * cx.config.maxIterations + 4 ≤ _
  simp only [accessBound, hconfig]
  omega

end Interleaved

/-! ## The end of a run -/

/-- The phase of a worker at this stage, for a stage between two steps; the start otherwise. -/
def Stage.phase : Stage S → Phase S
  | .walking t w => .walking t w
  | .finished best st => .finished best st
  | .failed e => .failed e
  | .start | .evaluateStart _ | .offerStart .. | .checkCancel .. | .propose .. | .evaluate ..
  | .keep .. | .report .. | .askStop .. | .refresh .. | .evaluateFresh .. | .offerFresh .. =>
      .start

theorem Stage.sound_phase {log : List (S × Float)} {reg : Register S} {st : Stage S}
    (hd : st.done = true) (hs : st.Sound log reg) : st.phase.Sound log reg := by
  cases st <;> first | exact hs | cases hd

theorem Stage.holds_phase {b : S × Float} {st : Stage S} (hd : st.done = true)
    (hs : st.Holds b) : st.phase.Holds b := by
  cases st <;> first | exact hs | cases hd

/-- The worker a thread is, seen between steps. -/
def Thread.toWorker (th : Thread S) : Worker S :=
  ⟨th.index, th.stream, th.stage.phase⟩

theorem Thread.outcome_toWorker (th : Thread S) : th.toWorker.outcome = th.outcome := by
  obtain ⟨i, g, st⟩ := th
  cases st <;> rfl

/-- A settled logging run, every thread done, is a sound run of the workers the threads are. -/
theorem Interleaved.RunSound.toWorkers {st : Shared (σ × List (S × Float)) ω S × Array (Thread S)}
    (h : RunSound st) (hd : ∀ j (hj : j < st.2.size), st.2[j].stage.done = true) :
    Annealing.RunSound (st.1, st.2.map Thread.toWorker) where
  ledger := h.ledger fun j hj => Stage.pending_of_done (hd j hj)
  sound j hj := by
    have hj' : j < st.2.size := by simpa using hj
    simpa [Thread.toWorker] using Stage.sound_phase (hd j hj') (h.sound j hj')
  held b hb := by
    obtain ⟨j, hj, hjb⟩ := h.held b hb
    refine ⟨j, by simpa using hj, ?_⟩
    simpa [Thread.toWorker] using Stage.holds_phase (hd j hj) hjb

/-- The logging run settles, its threads done, in a sound state of the workers they end as,
and its answer is that state's conclusion. -/
theorem Interleaved.launch_recording_sound (e : Engine σ ω S) (sh : Shared σ ω S)
    (threads : Nat) (watchCancel : Bool) (entropy : UInt64) (schedule : List Nat) :
    ∃ st : Shared (σ × List (S × Float)) ω S × Array (Worker S), Annealing.RunSound st ∧
      Interleaved.launch e.recording sh.logged threads watchCancel entropy schedule =
        Engine.conclude st.1 (st.2.toList.map Worker.outcome) := by
  have hsetup : e.recording.setup watchCancel = (e.setup watchCancel).recording := rfl
  let start : Shared (σ × List (S × Float)) ω S :=
    { sh.logged with register := Register.empty, abort := false }
  let st := Interleaved.settle (e.setup watchCancel).recording (e.config.seed.getD entropy)
    threads schedule start
  have hrun : Interleaved.RunSound st :=
    (Interleaved.RunSound.start sh (e.config.seed.getD entropy) threads).run _ _
  have hdone : ∀ j (hj : j < st.2.size), st.2[j].stage.done = true := fun _ hj =>
    Interleaved.settled_done _ _ _ _ _ hj
  refine ⟨(st.1, st.2.map Thread.toWorker), hrun.toWorkers hdone, ?_⟩
  simp only [Interleaved.launch, hsetup, Array.toList_map, List.map_map]
  congr 2
  funext th
  exact (Thread.outcome_toWorker th).symm

/-- When the workers interleave at every shared access, the register of a run still holds the
least energy the run computed, on the solution it was computed for, and a successful run
reports it as the least of its workers' bests, with the register's improvements falling to
it. -/
theorem Interleaved.register_holds_least_energy (e : Engine σ ω S) (sh : Shared σ ω S)
    (threads : Nat) (watchCancel : Bool) (entropy : UInt64) (schedule : List Nat) :
    (let run := Interleaved.launch e sh threads watchCancel entropy schedule
     let logged := Interleaved.launch e.recording sh.logged threads watchCancel entropy schedule
     (logged.result = run.result ∧ logged.shared.unlogged = run.shared) ∧
     (run.shared.register.best = none ↔ ∀ q ∈ logged.shared.log, q.2.isNaN = true) ∧
     (∀ s E, run.shared.register.best = some (s, E) →
        (s, E) ∈ logged.shared.log ∧ E.isNaN = false ∧ ∀ q ∈ logged.shared.log, ¬ q.2 < E) ∧
     ∀ r, run.result = .ok r →
        run.shared.register.best = some (r.best, r.bestEnergy) ∧
        r.bestEnergy ∈ r.workers.map (·.bestEnergy) ∧
        (∀ w ∈ r.workers, r.bestEnergy ≤ w.bestEnergy) ∧
        r.improvementHistory ≠ #[] ∧ Falling r.improvementHistory.toList ∧
        r.improvementHistory.back? = some r.bestEnergy) := by
  dsimp only
  obtain ⟨hres, hsh⟩ := Interleaved.launch_recording e sh threads watchCancel entropy schedule
  obtain ⟨st, hst, hlaunch⟩ :=
    Interleaved.launch_recording_sound e sh threads watchCancel entropy schedule
  exact ⟨⟨hres, hsh⟩, hst.keeps_best hlaunch hres hsh⟩

end Annealing
