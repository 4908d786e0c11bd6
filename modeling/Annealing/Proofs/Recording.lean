import Annealing.Engine
import Annealing.Proofs.Lockstep

/-!
# Runs that log their evaluations

What a run computes is not visible in its answer: the energies the workers evaluate are gone
once the run is over. To speak of them, the problem is given a log in its bookkeeping
(`Problem.recording`): each energy it computes is appended, with its solution, in the order
computed, and nothing else changes. The logging run is the same run: seen without the log, its
shared state and its answer are those of the plain run (`Engine.launch_recording`). Results
about the log are then results about the plain run's evaluations.

The proof is a lockstep (`Annealing.Lockstep`) under the relation "the same state, without
the log": every primitive of a turn keeps it, so every turn, every step and every interleaving
does.
-/

namespace Annealing

open Annealing.Random

variable {σ ω S α : Type}

namespace Eval

/-- An operation run on the first part of a larger bookkeeping. -/
def lift {τ : Type} (act : Eval σ α) : Eval (σ × τ) α :=
  fun ((p, t), g) =>
    match act (p, g) with
    | .ok a (p, g) => .ok a ((p, t), g)
    | .error f (p, g) => .error f ((p, t), g)

/-- Appends an evaluation to the log kept beside the bookkeeping. -/
def note (entry : S × Float) : Eval (σ × List (S × Float)) Unit :=
  fun ((p, log), g) => .ok () ((p, log ++ [entry]), g)

end Eval

/-- The problem with a log, kept in its bookkeeping, of every energy it computes, in order. -/
def Problem.recording (p : Problem σ S) : Problem (σ × List (S × Float)) S where
  randomSolution := Eval.lift p.randomSolution
  energy s := do
    let e ← Eval.lift (p.energy s)
    Eval.note (s, e)
    pure e
  neighbor s := Eval.lift (p.neighbor s)
  validate := p.validate

namespace Shared

/-- The shared state seen without the log. -/
def unlogged (sh : Shared (σ × List (S × Float)) ω S) : Shared σ ω S :=
  ⟨sh.register, sh.problem.1, sh.observer, sh.abort⟩

/-- The shared state with an empty log. -/
def logged (sh : Shared σ ω S) : Shared (σ × List (S × Float)) ω S :=
  ⟨sh.register, (sh.problem, []), sh.observer, sh.abort⟩

/-- The evaluations logged so far. -/
def log (sh : Shared (σ × List (S × Float)) ω S) : List (S × Float) :=
  sh.problem.2

@[simp] theorem unlogged_logged (sh : Shared σ ω S) : sh.logged.unlogged = sh := rfl

@[simp] theorem log_logged (sh : Shared σ ω S) : sh.logged.log = [] := rfl

@[simp] theorem unlogged_register (sh : Shared (σ × List (S × Float)) ω S) :
    sh.unlogged.register = sh.register := rfl

end Shared

/-- Every turn of a setup with a logging problem. -/
def Setup.recording (cx : Setup σ ω S) : Setup (σ × List (S × Float)) ω S :=
  { cx with problem := cx.problem.recording }

/-- An engine whose problem logs its evaluations. -/
def Engine.recording (e : Engine σ ω S) : Engine (σ × List (S × Float)) ω S :=
  { e with problem := e.problem.recording }

/-- A logging state and a plain one that are the same state but for the log. -/
def Unlogs (x₁ : Shared (σ × List (S × Float)) ω S × Stream) (x₂ : Shared σ ω S × Stream) :
    Prop :=
  x₂ = (x₁.1.unlogged, x₁.2)

/-- A publication offers the solution when its energy is not above the register's. -/
theorem Turn.publish_eq (e : Float) (s : S) (sh : Shared σ ω S) (g : Stream) :
    (Turn.publish e s : Turn σ ω S Unit) (sh, g) =
      .ok () ({ sh with register :=
        if e ≤ sh.register.bestEnergy then (sh.register.offer e s).2 else sh.register }, g) := by
  show EStateM.Result.ok () (if e ≤ sh.register.bestEnergy then
    ({ sh with register := (sh.register.offer e s).2 }, g) else (sh, g)) = _
  split
  · rfl
  · rfl

/-! ## Every primitive keeps the two states alike -/

namespace Unlogs

theorem perform_lift (i : Nat) (act : Eval σ α) :
    Lockstep Unlogs Eq
      (Turn.perform i (Eval.lift act) : Turn (σ × List (S × Float)) ω S α)
      (Turn.perform i act : Turn σ ω S α) := by
  rintro ⟨⟨reg, ⟨p, log⟩, obs, ab⟩, g⟩ _ rfl
  simp only [Turn.perform, Eval.lift, Shared.unlogged]
  rcases act (p, g) with ⟨a, ⟨p', g'⟩⟩ | ⟨f, ⟨p', g'⟩⟩
  · exact ⟨rfl, rfl⟩
  · exact ⟨rfl, rfl⟩

theorem perform_energy (i : Nat) (pr : Problem σ S) (s : S) :
    Lockstep Unlogs Eq
      (Turn.perform i (pr.recording.energy s) : Turn (σ × List (S × Float)) ω S Float)
      (Turn.perform i (pr.energy s) : Turn σ ω S Float) := by
  rintro ⟨⟨reg, ⟨p, log⟩, obs, ab⟩, g⟩ _ rfl
  -- the energy is computed on the same bookkeeping and stream, then logged
  simp only [Turn.perform, Problem.recording, Shared.unlogged, bind, EStateM.bind, Eval.lift]
  rcases pr.energy s (p, g) with ⟨e, ⟨p', g'⟩⟩ | ⟨f, ⟨p', g'⟩⟩
  · exact ⟨rfl, rfl⟩
  · exact ⟨rfl, rfl⟩

theorem hook (i : Nat) (act : EStateM String ω α) :
    Lockstep Unlogs Eq (Turn.hook i act : Turn (σ × List (S × Float)) ω S α)
      (Turn.hook i act : Turn σ ω S α) := by
  rintro ⟨sh, g⟩ _ rfl
  simp only [Turn.hook, Shared.unlogged]
  rcases act sh.observer with ⟨a, o⟩ | ⟨m, o⟩
  · exact ⟨rfl, rfl⟩
  · exact ⟨rfl, rfl⟩

theorem draw (f : Stream → α × Stream) :
    Lockstep Unlogs Eq (Turn.draw f : Turn (σ × List (S × Float)) ω S α)
      (Turn.draw f : Turn σ ω S α) := by
  rintro ⟨sh, g⟩ _ rfl
  exact ⟨rfl, rfl⟩

theorem publish (e : Float) (s : S) :
    Lockstep Unlogs Eq (Turn.publish e s : Turn (σ × List (S × Float)) ω S Unit)
      (Turn.publish e s : Turn σ ω S Unit) := by
  rintro ⟨sh, g⟩ _ rfl
  rw [Turn.publish_eq, Turn.publish_eq]
  exact ⟨rfl, rfl⟩

theorem shared (cx : Setup σ ω S) :
    Lockstep Unlogs
      (fun (a : Shared (σ × List (S × Float)) ω S) (b : Shared σ ω S) => a.abort = b.abort ∧
        cx.observer.cancelRequested a.observer = cx.observer.cancelRequested b.observer)
      Turn.shared Turn.shared := by
  rintro ⟨sh, g⟩ _ rfl
  exact ⟨⟨rfl, rfl⟩, rfl⟩

end Unlogs

theorem Setup.lockstep_recording (cx : Setup σ ω S) : cx.recording.Lockstep Unlogs cx where
  config := rfl
  observer := rfl
  watchCancel := rfl
  status := rfl
  randomSolution i := Unlogs.perform_lift i _
  energy i s := Unlogs.perform_energy i cx.problem s
  neighbor i _ := Unlogs.perform_lift i _
  progress i _ _ _ _ _ _ := Unlogs.hook i _
  stop i _ _ _ _ _ := Unlogs.hook i _
  draw f := Unlogs.draw f
  publish e s := Unlogs.publish e s
  shared := Unlogs.shared cx

/-- The restart reads and writes the register, which the log leaves alone. -/
theorem Setup.restart_recording (cx : Setup σ ω S) (i it : Nat) (w : Walk S) :
    Annealing.Lockstep Unlogs Eq (Turn.restart cx.recording i it w) (Turn.restart cx i it w) := by
  have h := cx.lockstep_recording
  unfold Turn.restart
  rcases w.restarter.tick with ⟨due, r⟩
  dsimp only
  split
  · exact Annealing.Lockstep.ret rfl
  · refine Annealing.Lockstep.bind (h.randomSolution i) fun fresh _ hf => ?_
    subst hf
    refine Annealing.Lockstep.bind (h.evaluate i it fresh) fun e _ he => ?_
    subst he
    refine Annealing.Lockstep.bind Lockstep.get fun x₁ x₂ hx => ?_
    subst hx
    obtain ⟨sh, g⟩ := x₁
    dsimp only
    rw [Shared.unlogged_register]
    rcases r.offer fresh e sh.register with ⟨adopted, r', reg⟩
    dsimp only
    refine Annealing.Lockstep.bind (Annealing.Lockstep.set rfl) fun _ _ _ => ?_
    split
    · exact Annealing.Lockstep.ret rfl
    · exact Annealing.Lockstep.ret rfl

/-! ## Steps, interleavings and runs -/

/-- A worker's step in a logging run is its step in the plain run, seen without the log. -/
theorem Worker.step_unlogged (cx : Setup σ ω S) (sh : Shared (σ × List (S × Float)) ω S)
    (wk : Worker S) :
    Worker.step cx sh.unlogged wk =
      ((Worker.step cx.recording sh wk).1.unlogged, (Worker.step cx.recording sh wk).2) := by
  have h := cx.lockstep_recording
  obtain ⟨hwk, hsh⟩ := h.step (fun _ _ hq => by rw [hq]) (fun _ _ _ hq _ => by subst hq; rfl)
    (rfl : Unlogs (sh, wk.stream) (sh.unlogged, wk.stream))
    fun it w _ => h.iterate wk.index it w (fun _ => True) (fun _ _ _ _ => trivial)
      fun w _ => cx.restart_recording wk.index it w
  have hsh : ((Worker.step cx sh.unlogged wk).1, (Worker.step cx sh.unlogged wk).2.stream) =
      ((Worker.step cx.recording sh wk).1.unlogged, (Worker.step cx.recording sh wk).2.stream) :=
    hsh
  have hfst := congrArg Prod.fst hsh
  exact Prod.ext hfst hwk

namespace Engine

/-- Worker `i` of the pool takes its step, if there is such a worker. -/
def stepAt (cx : Setup σ ω S) (i : Nat) (st : Shared σ ω S × Array (Worker S)) :
    Shared σ ω S × Array (Worker S) :=
  if h : i < st.2.size then
    let next := st.2[i].step cx st.1
    (next.1, st.2.set i next.2)
  else st

theorem interleave_eq_foldl (cx : Setup σ ω S) (schedule : List Nat) (sh : Shared σ ω S)
    (pool : Array (Worker S)) :
    interleave cx schedule sh pool = schedule.foldl (fun st i => stepAt cx i st) (sh, pool) :=
  rfl

theorem stepAt_unlogged (cx : Setup σ ω S) (i : Nat)
    (st : Shared (σ × List (S × Float)) ω S × Array (Worker S)) :
    stepAt cx i (st.1.unlogged, st.2) =
      ((stepAt cx.recording i st).1.unlogged, (stepAt cx.recording i st).2) := by
  unfold stepAt
  split
  · dsimp only
    rw [Worker.step_unlogged]
  · rfl

theorem interleave_unlogged (cx : Setup σ ω S) (schedule : List Nat)
    (sh : Shared (σ × List (S × Float)) ω S) (pool : Array (Worker S)) :
    interleave cx schedule sh.unlogged pool =
      ((interleave cx.recording schedule sh pool).1.unlogged,
        (interleave cx.recording schedule sh pool).2) := by
  rw [interleave_eq_foldl, interleave_eq_foldl]
  induction schedule generalizing sh pool with
  | nil => rfl
  | cons i rest ih =>
      simp only [List.foldl_cons]
      rw [show (sh.unlogged, pool) = ((sh, pool).1.unlogged, (sh, pool).2) from rfl,
        stepAt_unlogged]
      exact ih _ _

theorem reconcile_unlogged (sh : Shared (σ × List (S × Float)) ω S)
    (reports : List (S × Stats)) :
    reconcile sh.unlogged reports = (reconcile sh reports).unlogged := by
  induction reports generalizing sh with
  | nil => rfl
  | cons report rest ih =>
      simp only [reconcile, List.foldl_cons] at ih ⊢
      rw [← ih]
      congr 1
      by_cases hc : report.2.bestEnergy ≤ sh.register.bestEnergy
      · simp only [Shared.unlogged_register, hc, ↓reduceIte]
        rfl
      · simp only [Shared.unlogged_register, hc, ↓reduceIte]

theorem conclude_unlogged (sh : Shared (σ × List (S × Float)) ω S)
    (outcomes : List (Except RunError (S × Stats))) :
    conclude sh.unlogged outcomes =
      ⟨(conclude sh outcomes).result, (conclude sh outcomes).shared.unlogged⟩ := by
  unfold conclude
  split
  · rfl
  · dsimp only
    rw [reconcile_unlogged, Shared.unlogged_register]
    rcases (reconcile sh _).register.best with _ | ⟨best, bestEnergy⟩
    · rfl
    · rfl

/-- The logging run is the plain run: the same answer, and the same shared state but for the
log. -/
theorem launch_recording (e : Engine σ ω S) (sh : Shared σ ω S) (threads : Nat)
    (watchCancel : Bool) (entropy : UInt64) (schedule : List Nat) :
    (e.recording.launch sh.logged threads watchCancel entropy schedule).result =
        (e.launch sh threads watchCancel entropy schedule).result ∧
      (e.recording.launch sh.logged threads watchCancel entropy schedule).shared.unlogged =
        (e.launch sh threads watchCancel entropy schedule).shared := by
  have hsetup : e.recording.setup watchCancel = (e.setup watchCancel).recording := rfl
  have hconfig : ((e.setup watchCancel).recording).config = e.config := rfl
  have hseed : e.recording.config = e.config := rfl
  have hstart : ({ sh with register := Register.empty, abort := false } : Shared σ ω S) =
      Shared.unlogged { sh.logged with register := Register.empty, abort := false } := rfl
  simp only [launch, settle, hsetup, hconfig, hseed]
  rw [hstart, interleave_unlogged, conclude_unlogged]
  exact ⟨rfl, rfl⟩

end Engine

end Annealing
