import Annealing.Proofs.Pool

/-!
# A run keeps the best energy it computes

Whatever the interleaving of its workers, and however it ends, a run leaves in the register
the best evaluation it made: the register is empty exactly when every energy it computed was
NaN, and otherwise it holds a solution with the energy computed for it, below which no computed
energy lies. The energies a run computes are those its logging twin logs
(`Problem.recording`), which is the same run (`Engine.launch_recording`).

A successful run answers with that solution. Its energy is the least of the workers' bests,
and the register's improvements, which the run reports, fall strictly down to it.
-/

namespace Annealing

open Annealing.Random

variable {σ ω S : Type}

/-- What a logging run concludes from a sound state, read for the plain run it mirrors: the
register holds the least energy logged, on its solution, and a successful answer is that
evaluation, the least of the workers' bests, with the register's improvements falling to it. -/
theorem RunSound.keeps_best {st : Shared (σ × List (S × Float)) ω S × Array (Worker S)}
    (hst : RunSound st) {run : Run σ ω S} {logged : Run (σ × List (S × Float)) ω S}
    (hlaunch : logged = Engine.conclude st.1 (st.2.toList.map Worker.outcome))
    (hres : logged.result = run.result) (hsh : logged.shared.unlogged = run.shared) :
    (run.shared.register.best = none ↔ ∀ q ∈ logged.shared.log, q.2.isNaN = true) ∧
    (∀ s E, run.shared.register.best = some (s, E) →
       (s, E) ∈ logged.shared.log ∧ E.isNaN = false ∧ ∀ q ∈ logged.shared.log, ¬ q.2 < E) ∧
    ∀ r, run.result = .ok r →
       run.shared.register.best = some (r.best, r.bestEnergy) ∧
       r.bestEnergy ∈ r.workers.map (·.bestEnergy) ∧
       (∀ w ∈ r.workers, r.bestEnergy ≤ w.bestEnergy) ∧
       r.improvementHistory ≠ #[] ∧ Falling r.improvementHistory.toList ∧
       r.improvementHistory.back? = some r.bestEnergy := by
  obtain ⟨hshared, hok⟩ := hst.conclude
  -- the plain run's register is the logging run's, which its last state holds
  have hreg : run.shared.register = st.1.register := by
    rw [← hsh, Shared.unlogged_register, hlaunch, hshared]
  have hlog : logged.shared.log = st.1.log := by
    rw [hlaunch, hshared]
  refine ⟨?_, ?_, ?_⟩
  · rw [hreg, hlog]
    exact hst.ledger.best_eq_none_iff
  · intro s E hb
    rw [hreg] at hb
    rw [hlog]
    exact hst.ledger.least hb
  · intro r hr
    rw [← hres, hlaunch] at hr
    obtain ⟨hb, hmem, hle, hhist⟩ := hok r hr
    have hv := hst.ledger.valid
    rw [hreg, hhist]
    refine ⟨hb, hmem, hle, fun hempty => ?_, hv.falling, hv.last _ _ hb⟩
    rw [← hv.empty_iff, hb] at hempty
    cases hempty

namespace Engine

/-- The register of a run holds the least energy the run computed, on the solution it was
computed for, and a successful run reports it as the least of its workers' bests. -/
theorem register_keeps_best_evaluation (e : Engine σ ω S) (sh : Shared σ ω S) (threads : Nat)
    (watchCancel : Bool) (entropy : UInt64) (schedule : List Nat) :
    (let run := e.launch sh threads watchCancel entropy schedule
     let logged := e.recording.launch sh.logged threads watchCancel entropy schedule
     (logged.result = run.result ∧ logged.shared.unlogged = run.shared) ∧
     (run.shared.register.best = none ↔ ∀ q ∈ logged.shared.log, q.2.isNaN = true) ∧
     (∀ s E, run.shared.register.best = some (s, E) →
        (s, E) ∈ logged.shared.log ∧ E.isNaN = false ∧ ∀ q ∈ logged.shared.log, ¬ q.2 < E) ∧
     ∀ r, run.result = .ok r →
        run.shared.register.best = some (r.best, r.bestEnergy) ∧
        r.bestEnergy ∈ r.workers.map (·.bestEnergy) ∧
        (∀ w ∈ r.workers, r.bestEnergy ≤ w.bestEnergy) ∧
        r.improvementHistory ≠ #[] ∧ Falling r.improvementHistory.toList ∧
        r.improvementHistory.back? = some r.bestEnergy) := by
  dsimp only
  obtain ⟨hres, hsh⟩ := launch_recording e sh threads watchCancel entropy schedule
  obtain ⟨hst, hlaunch⟩ := launch_recording_sound e sh threads watchCancel entropy schedule
  exact ⟨⟨hres, hsh⟩, hst.keeps_best hlaunch hres hsh⟩

/-- At every point of every interleaving, each walking worker's best energy lies between the
register's and its current energy, none of them NaN, both its energies being those computed
for its solutions; its best never rises afterwards; a restart it adopts lies strictly below
both energies of the walk it replaces; and the reconciliation at the end changes nothing. -/
theorem walks_stay_covered (e : Engine σ ω S) (sh : Shared σ ω S) (threads : Nat)
    (watchCancel : Bool) (entropy : UInt64) (schedule : List Nat) :
    (let cx := e.setup watchCancel
     let seed := e.config.seed.getD entropy
     let start : Shared σ ω S := { sh with register := Register.empty, abort := false }
     let st := interleave cx schedule start (pool seed threads)
     let log := (interleave cx.recording schedule start.logged (pool seed threads)).1.log
     (∀ j (hj : j < st.2.size) it w, st.2[j].phase = .walking it w →
        (st.1.register.best ≠ none ∧ st.1.register.bestEnergy ≤ w.bestEnergy ∧
          w.bestEnergy ≤ w.currentEnergy) ∧
        (st.1.register.bestEnergy.isNaN = false ∧ w.bestEnergy.isNaN = false ∧
          w.currentEnergy.isNaN = false) ∧
        ((w.best, w.bestEnergy) ∈ log ∧ (w.current, w.currentEnergy) ∈ log) ∧
        (∀ more (hj' : j < (interleave cx (schedule ++ more) start (pool seed threads)).2.size) b,
          (interleave cx (schedule ++ more) start (pool seed threads)).2[j].phase.best? = some b →
          b.2 ≤ w.bestEnergy) ∧
        ∀ w₁ y w₂ z,
          Turn.advance cx st.2[j].index it w (st.1, st.2[j].stream) = .ok (.inr w₁) y →
          Turn.restart cx st.2[j].index it w₁ y = .ok w₂ z →
          w₁.SameSolutions w₂ ∨ w₂.current = w₂.best ∧ w₂.currentEnergy = w₂.bestEnergy ∧
            w₂.bestEnergy < w₁.bestEnergy ∧ w₂.currentEnergy < w₁.currentEnergy) ∧
     ∀ reports,
       ((settle cx seed threads schedule start).2.toList.map Worker.outcome).mapM id = .ok reports →
       reconcile (settle cx seed threads schedule start).1 reports =
         (settle cx seed threads schedule start).1) := by
  intro cx seed start st log
  have h₀ : RunSound (start.logged, (pool seed threads : Array (Worker S))) :=
    RunSound.start sh seed threads
  -- the plain run is the logging run without its log
  have hplain : ∀ sched, interleave cx sched start (pool seed threads) =
      ((interleave cx.recording sched start.logged (pool seed threads)).1.unlogged,
        (interleave cx.recording sched start.logged (pool seed threads)).2) :=
    fun sched => interleave_unlogged cx sched start.logged (pool seed threads)
  refine ⟨fun j hj it w hw => ?_, fun reports hm => ?_⟩
  · -- read the worker and the register off the logging run
    have hst := hplain schedule
    have hmore : ∀ more, interleave cx (schedule ++ more) start (pool seed threads) =
        ((interleave cx.recording more
            (interleave cx.recording schedule start.logged (pool seed threads)).1
            (interleave cx.recording schedule start.logged (pool seed threads)).2).1.unlogged,
          (interleave cx.recording more
            (interleave cx.recording schedule start.logged (pool seed threads)).1
            (interleave cx.recording schedule start.logged (pool seed threads)).2).2) := by
      intro more
      rw [hplain, interleave_append]
    have hrun := (h₀.interleave cx schedule).1
    have hlog : log = (interleave cx.recording schedule start.logged (pool seed threads)).1.log :=
      rfl
    generalize interleave cx.recording schedule start.logged (pool seed threads) = rec
      at hst hmore hrun hlog
    have hjr : j < rec.2.size := by rw [← congrArg Prod.snd hst]; exact hj
    have hwk : st.2[j] = rec.2[j] := getElem_congr_coll (congrArg Prod.snd hst)
    rw [hwk] at hw ⊢
    rw [congrArg Prod.fst hst, hlog]
    have hsound : Walk.Sound rec.1.log rec.1.register w := by
      have hs := hrun.sound j hjr
      rw [hw] at hs
      exact hs
    refine ⟨⟨hsound.covers.1, hsound.covers.2, hsound.best_le⟩,
      ⟨hrun.ledger.valid.bestEnergy_isNaN, hsound.covers.isNaN,
        Float.isNaN_right_of_le hsound.best_le⟩,
      ⟨hsound.best_mem, hsound.current_mem⟩, fun more hj' b hb => ?_,
      fun w₁ y w₂ z hadv hres => ?_⟩
    · -- the worker's best only falls over the steps that follow
      rw [getElem_congr_coll (congrArg Prod.snd (hmore more))] at hb
      obtain ⟨-, hdesc⟩ := (hrun.interleave cx more).2
      have hbelow := hdesc j hjr (by rw [← congrArg Prod.snd (hmore more)]; exact hj')
        (by rw [hw]; exact nofun)
      obtain ⟨b₀, hb₀, hle⟩ := hbelow.2 b hb
      rw [hw] at hb₀
      cases hb₀
      exact hle
    · -- the same iteration in the logging run reaches the same walk and restart
      have hq₀ : Unlogs (rec.1, rec.2[j].stream) (rec.1.unlogged, rec.2[j].stream) := rfl
      obtain ⟨y₁, hadv₁, hq₁⟩ := (cx.lockstep_recording.advance _ it w).ok_of_right hq₀ hadv
      obtain ⟨z₁, hres₁, -⟩ := (cx.restart_recording _ it w₁).ok_of_right hq₁ hres
      obtain ⟨w', hadvs, hr⟩ := advance_advances hrun.ledger hsound hadv₁
      rcases hr with hr | ⟨t, ht⟩
      · cases hr
        exact (restart_advances hadvs.ledger hadvs.sound hres₁).2
      · cases ht
  · -- the reports are those of the logging run, whose register covers them
    have hsettle : RunSound (interleave cx.recording
        (schedule ++ inOrder threads (cx.config.maxIterations + 1)) start.logged
        (pool seed threads)) := (h₀.interleave cx _).1
    have hst : settle cx seed threads schedule start = _ := hplain _
    rw [hst] at hm ⊢
    apply reconcile_covered
    · exact hsettle.ledger.valid
    · exact hsettle.reports_covered hm

end Engine

end Annealing
