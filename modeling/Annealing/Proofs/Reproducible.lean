import Annealing.Proofs.Pool

/-!
# Without restarts a worker walks alone

A worker reads what the others change in a few places only: the problem's bookkeeping, the
observer's state, the abort flag and the cancel token, and the register, which a restart
reads and a publication only writes. Take these away (problem operations and hooks that end
alike whatever the shared state, a cancel token that stays down, no worker failing so the abort
flag stays down, restarts that never come due) and a step of a worker in a run is the step it
takes in its run alone (`Steady`, `Setup.steady`). Its state in any interleaving is then its
state alone after as many steps as the schedule gave it (`Tracks.interleave`), and at the end of
a run it is the worker of its run alone (`Engine.settle_alone`).

A restart never comes due when restarts are off, or when their interval is at least the
number of iterations: a walk at iteration `it` has counted `it` iterations since its start,
and only iterations before the last ask for a restart (`Restarter.Idle`).
-/

namespace Annealing

open Annealing.Random

variable {σ ω S α : Type}

/-! ## Operations and hooks that ignore the shared state -/

/-- A problem operation that, run from the same stream, ends alike whatever the bookkeeping:
the same value or fault, and the same stream. -/
def Eval.Oblivious (act : Eval σ α) : Prop :=
  Lockstep (fun x y : σ × Stream => x.2 = y.2) Eq act act

/-- A problem whose operations are functions of their arguments and of the stream alone. -/
def Problem.Oblivious (p : Problem σ S) : Prop :=
  p.randomSolution.Oblivious ∧ (∀ s, (p.energy s).Oblivious) ∧ ∀ s, (p.neighbor s).Oblivious

/-- A hook that ends alike whatever the observer's state, and never raises the cancel
token. -/
def Observer.Calm (obs : Observer ω S) (act : EStateM String ω α) : Prop :=
  Lockstep (fun o o' => obs.cancelRequested o = false ∧ obs.cancelRequested o' = false) Eq
    act act

/-- An observer whose hooks are calm. -/
def Observer.Oblivious (obs : Observer ω S) : Prop :=
  (∀ f, obs.progress = some f → ∀ st it e s, obs.Calm (f st it e s)) ∧
    ∀ f, obs.stop = some f → ∀ it e s, obs.Calm (f it e s)

/-- Two points of two runs that a worker cannot tell apart: the same stream, and the abort flag
and the cancel token down in both. -/
def Steady (cx : Setup σ ω S) (x₁ x₂ : Shared σ ω S × Stream) : Prop :=
  x₁.2 = x₂.2 ∧ x₁.1.abort = false ∧ x₂.1.abort = false ∧
    cx.observer.cancelRequested x₁.1.observer = false ∧
    cx.observer.cancelRequested x₂.1.observer = false

namespace Steady

variable {cx : Setup σ ω S}

theorem perform (h : Eval.Oblivious act) (i : Nat) :
    Lockstep (Steady cx) Eq (Turn.perform i act) (Turn.perform i act) := by
  rintro ⟨sh₁, g⟩ ⟨sh₂, g'⟩ ⟨hg, ha₁, ha₂, hc₁, hc₂⟩
  obtain rfl : g = g' := hg
  have h := h (sh₁.problem, g) (sh₂.problem, g) rfl
  simp only [Turn.perform]
  revert h
  rcases act (sh₁.problem, g) with ⟨a, p₁, g₁⟩ | ⟨f, p₁, g₁⟩ <;>
    rcases act (sh₂.problem, g) with ⟨b, p₂, g₂⟩ | ⟨f', p₂, g₂⟩
  · rintro ⟨rfl, hg₁ : g₁ = g₂⟩
    exact ⟨rfl, hg₁, ha₁, ha₂, hc₁, hc₂⟩
  · exact fun h => (h : False).elim
  · exact fun h => (h : False).elim
  · rintro ⟨rfl, hg₁ : g₁ = g₂⟩
    exact ⟨rfl, hg₁, ha₁, ha₂, hc₁, hc₂⟩

theorem hook (h : cx.observer.Calm act) (i : Nat) :
    Lockstep (Steady cx) Eq (Turn.hook i act) (Turn.hook i act) := by
  rintro ⟨sh₁, g⟩ ⟨sh₂, g'⟩ ⟨hg, ha₁, ha₂, hc₁, hc₂⟩
  obtain rfl : g = g' := hg
  have h := h sh₁.observer sh₂.observer ⟨hc₁, hc₂⟩
  simp only [Turn.hook]
  revert h
  rcases act sh₁.observer with ⟨a, o₁⟩ | ⟨m, o₁⟩ <;> rcases act sh₂.observer with ⟨b, o₂⟩ | ⟨m', o₂⟩
  · rintro ⟨rfl, ho₁, ho₂⟩
    exact ⟨rfl, rfl, ha₁, ha₂, ho₁, ho₂⟩
  · exact fun h => (h : False).elim
  · exact fun h => (h : False).elim
  · rintro ⟨rfl, ho₁, ho₂⟩
    exact ⟨rfl, rfl, ha₁, ha₂, ho₁, ho₂⟩

theorem draw (f : Stream → α × Stream) :
    Lockstep (Steady cx) Eq (Turn.draw f) (Turn.draw f) := by
  rintro ⟨sh₁, g⟩ ⟨sh₂, g'⟩ ⟨hg, ha₁, ha₂, hc₁, hc₂⟩
  obtain rfl : g = g' := hg
  exact ⟨rfl, rfl, ha₁, ha₂, hc₁, hc₂⟩

theorem publish (e : Float) (s : S) :
    Lockstep (Steady cx) Eq (Turn.publish e s) (Turn.publish e s) := by
  rintro ⟨sh₁, g⟩ ⟨sh₂, g'⟩ ⟨hg, ha₁, ha₂, hc₁, hc₂⟩
  rw [Turn.publish_eq, Turn.publish_eq]
  exact ⟨rfl, hg, ha₁, ha₂, hc₁, hc₂⟩

theorem shared :
    Lockstep (Steady cx)
      (fun a b => a.abort = b.abort ∧
        cx.observer.cancelRequested a.observer = cx.observer.cancelRequested b.observer)
      Turn.shared Turn.shared := by
  intro x₁ x₂ hq
  obtain ⟨-, ha₁, ha₂, hc₁, hc₂⟩ := id hq
  exact ⟨⟨ha₁.trans ha₂.symm, hc₁.trans hc₂.symm⟩, hq⟩

end Steady

/-- With an oblivious problem and observer, a setup takes its turns in lockstep with itself
from any two steady points. -/
theorem Setup.steady {cx : Setup σ ω S} (hp : cx.problem.Oblivious)
    (ho : cx.observer.Oblivious) : cx.Lockstep (Steady cx) cx where
  config := rfl
  observer := rfl
  watchCancel := rfl
  status := rfl
  randomSolution i := Steady.perform hp.1 i
  energy i s := Steady.perform (hp.2.1 s) i
  neighbor i s := Steady.perform (hp.2.2 s) i
  progress i f hf _ _ _ _ := Steady.hook (ho.1 f hf _ _ _ _) i
  stop i f hf _ _ _ := Steady.hook (ho.2 f hf _ _ _) i
  draw f := Steady.draw f
  publish e s := Steady.publish e s
  shared := Steady.shared

/-! ## Restarts that never come due -/

/-- A restart schedule that cannot come due at iteration `it` or later: restarts are off, or
their interval is at least the number of iterations and `it` iterations have been counted. -/
def Restarter.Idle (c : Config) (it : Nat) (r : Restarter) : Prop :=
  r.interval = 0 ∨ c.maxIterations ≤ r.interval ∧ r.sinceLast = it

/-- An idle schedule asked before the last iteration says no, and stays idle. -/
theorem Restarter.Idle.tick {c : Config} {it : Nat} {r : Restarter} (h : r.Idle c it)
    (hlt : it + 1 < c.maxIterations) : r.tick.1 = false ∧ r.tick.2.Idle c (it + 1) := by
  unfold Restarter.tick
  rcases h with hoff | ⟨hle, hsince⟩
  · rw [if_pos hoff]
    exact ⟨rfl, .inl hoff⟩
  · have hne : r.interval ≠ 0 := by omega
    rw [if_neg hne]
    refine ⟨decide_eq_false (by omega), .inr ⟨hle, ?_⟩⟩
    show r.sinceLast + 1 = it + 1
    omega

theorem Turn.restart_idle {cx : Setup σ ω S} {i it : Nat} {w : Walk S}
    (h : w.restarter.Idle cx.config it) (hlt : it + 1 < cx.config.maxIterations) :
    Turn.restart cx i it w = pure { w with restarter := w.restarter.tick.2 } := by
  have hdue := (h.tick hlt).1
  unfold Turn.restart
  rcases ht : w.restarter.tick with ⟨due, r⟩
  rw [ht] at hdue
  obtain rfl : due = false := hdue
  rfl

namespace Turn

variable {cx : Setup σ ω S} {i it : Nat} {w w' : Walk S} {x y : Shared σ ω S × Stream}

theorem begin_restarter (h : Turn.begin cx i x = .ok w y) :
    w.restarter = Restarter.start cx.config.restartInterval := by
  unfold Turn.begin at h
  dsimp only at h
  obtain ⟨s, y₁, -, hrest₁⟩ := bind_eq_ok.1 h
  obtain ⟨e, y₂, -, hrest₂⟩ := bind_eq_ok.1 hrest₁
  obtain ⟨u, y₃, -, hrest₃⟩ := bind_eq_ok.1 hrest₂
  -- the controller is reserved or not; either way the walk starts its schedule afresh
  split at hrest₃
  · generalize (Adaptive.Controller.reserve _ _ _ : Except String (Adaptive.Controller Float)) =
      reserved at hrest₃
    rcases reserved with message | ctl <;> dsimp only at hrest₃
    · obtain ⟨c, y₄, hthrow, -⟩ := bind_eq_ok.1 hrest₃
      cases hthrow
    · obtain ⟨c, y₄, -, hrest₄⟩ := bind_eq_ok.1 hrest₃
      obtain ⟨rfl, -⟩ := EStateM.Result.ok.inj hrest₄
      rfl
  · obtain ⟨c, y₄, -, hrest₄⟩ := bind_eq_ok.1 hrest₃
    obtain ⟨rfl, -⟩ := EStateM.Result.ok.inj hrest₄
    rfl

theorem move_restarter (h : Turn.move cx i it w x = .ok w' y) : w'.restarter = w.restarter := by
  unfold Turn.move at h
  dsimp only at h
  obtain ⟨cand, y₁, -, hrest₁⟩ := bind_eq_ok.1 h
  obtain ⟨c, y₂, -, hrest₂⟩ := bind_eq_ok.1 hrest₁
  obtain ⟨taken, y₃, -, hrest₃⟩ := bind_eq_ok.1 hrest₂
  obtain ⟨rfl, -⟩ := EStateM.Result.ok.inj hrest₃
  cases taken <;> rfl

theorem keepBest_restarter {c : Config}
    (h : (Turn.keepBest c it w : Turn σ ω S (Walk S)) x = .ok w' y) :
    w'.restarter = w.restarter := by
  unfold Turn.keepBest at h
  dsimp only at h
  split at h
  · obtain ⟨u, y₁, -, hrest₁⟩ := bind_eq_ok.1 h
    obtain ⟨w₁, y₂, hpure, hrest₂⟩ := bind_eq_ok.1 hrest₁
    obtain ⟨rfl, rfl⟩ := EStateM.Result.ok.inj hpure
    split at hrest₂ <;> obtain ⟨rfl, -⟩ := EStateM.Result.ok.inj hrest₂ <;> rfl
  · obtain ⟨w₁, y₂, hpure, hrest₂⟩ := bind_eq_ok.1 h
    obtain ⟨rfl, rfl⟩ := EStateM.Result.ok.inj hpure
    split at hrest₂ <;> obtain ⟨rfl, -⟩ := EStateM.Result.ok.inj hrest₂ <;> rfl

/-- An iteration up to its restart ends the walk as a finished worker, or goes on to the
restart, which only an iteration before the last reaches, with the schedule left alone. -/
theorem advance_ends {r : Phase S ⊕ Walk S} (h : Turn.advance cx i it w x = .ok r y) :
    (∃ best st, r = .inl (.finished best st)) ∨
      ∃ w', r = .inr w' ∧ w'.restarter = w.restarter ∧ it + 1 < cx.config.maxIterations := by
  unfold Turn.advance at h
  dsimp only at h
  split at h
  · obtain ⟨rfl, -⟩ := EStateM.Result.ok.inj h
    exact .inl ⟨_, _, rfl⟩
  rename_i hfirst
  obtain ⟨sh, y₀, -, hrest₀⟩ := bind_eq_ok.1 h
  clear h
  split at hrest₀
  · obtain ⟨rfl, -⟩ := EStateM.Result.ok.inj hrest₀
    exact .inl ⟨_, _, rfl⟩
  split at hrest₀
  · obtain ⟨rfl, -⟩ := EStateM.Result.ok.inj hrest₀
    exact .inl ⟨_, _, rfl⟩
  obtain ⟨w₁, y₁, hmove, hrest₁⟩ := bind_eq_ok.1 hrest₀
  obtain ⟨w₂, y₂, hkeep, hrest₂⟩ := bind_eq_ok.1 hrest₁
  obtain ⟨stop, y₃, -, hrest₃⟩ := bind_eq_ok.1 hrest₂
  clear hrest₀ hrest₁ hrest₂
  split at hrest₃
  · obtain ⟨rfl, -⟩ := EStateM.Result.ok.inj hrest₃
    exact .inl ⟨_, _, rfl⟩
  split at hrest₃
  · obtain ⟨rfl, -⟩ := EStateM.Result.ok.inj hrest₃
    exact .inl ⟨_, _, rfl⟩
  rename_i hlast
  obtain ⟨rfl, -⟩ := EStateM.Result.ok.inj hrest₃
  exact .inr ⟨w₂, rfl, (keepBest_restarter hkeep).trans (move_restarter hmove), by omega⟩

end Turn

/-- A phase whose restart schedule, if it walks, is idle. -/
def Phase.Idle (c : Config) : Phase S → Prop
  | .walking it w => w.restarter.Idle c it
  | .start | .finished .. | .failed _ => True

theorem Turn.iterate_idle {cx : Setup σ ω S} {i it : Nat} {w : Walk S} {p : Phase S}
    {x y : Shared σ ω S × Stream} (hidle : w.restarter.Idle cx.config it)
    (h : Turn.iterate cx i it w x = .ok p y) : p.Idle cx.config := by
  unfold Turn.iterate at h
  obtain ⟨r, y₁, hadv, hrest⟩ := bind_eq_ok.1 h
  rcases Turn.advance_ends hadv with ⟨best, st, rfl⟩ | ⟨w₁, rfl, hr, hlt⟩
  · obtain ⟨rfl, -⟩ := EStateM.Result.ok.inj hrest
    trivial
  · obtain ⟨w₂, y₂, hrestart, hcool⟩ := bind_eq_ok.1 hrest
    rw [Turn.restart_idle (hr ▸ hidle) hlt] at hrestart
    obtain ⟨rfl, -⟩ := EStateM.Result.ok.inj hrestart
    obtain ⟨rfl, -⟩ := EStateM.Result.ok.inj hcool
    show Restarter.Idle cx.config (it + 1) w₁.restarter.tick.2
    rw [hr]
    exact (hidle.tick hlt).2

theorem Worker.step_idle {cx : Setup σ ω S}
    (hcfg : cx.config.restartInterval = 0 ∨ cx.config.maxIterations ≤ cx.config.restartInterval)
    (sh : Shared σ ω S) {wk : Worker S} (h : wk.phase.Idle cx.config) :
    (Worker.step cx sh wk).2.phase.Idle cx.config := by
  obtain ⟨i, g, phase⟩ := wk
  cases phase with
  | start =>
      simp only [Worker.step]
      rcases hb : Turn.begin cx i (sh, g) with ⟨w, ⟨y, g'⟩⟩ | ⟨e, ⟨y, g'⟩⟩
      · show w.restarter.Idle cx.config 0
        rw [Turn.begin_restarter hb]
        rcases hcfg with hoff | hle
        · exact .inl hoff
        · exact .inr ⟨hle, rfl⟩
      · trivial
  | walking it w =>
      simp only [Worker.step, id]
      rcases hi : Turn.iterate cx i it w (sh, g) with ⟨p, ⟨y, g'⟩⟩ | ⟨e, ⟨y, g'⟩⟩
      · exact Turn.iterate_idle h hi
      · trivial
  | finished best st => trivial
  | failed e => trivial

/-- An iteration of an idle walk is in lockstep with itself from steady points. -/
theorem Setup.Lockstep.iterate_idle {cx : Setup σ ω S} (h : cx.Lockstep (Steady cx) cx)
    (i it : Nat) {w : Walk S} (hidle : w.restarter.Idle cx.config it) :
    Annealing.Lockstep (Steady cx) Eq (Turn.iterate cx i it w) (Turn.iterate cx i it w) := by
  refine h.iterate i it w (fun w' => w'.restarter = w.restarter ∧ it + 1 < cx.config.maxIterations)
    (fun x w' y hadv => ?_) fun w' ⟨hr, hlt⟩ => ?_
  · rcases Turn.advance_ends hadv with ⟨best, st, hr⟩ | ⟨w'', hr, hrest, hlt⟩
    · cases hr
    · cases hr
      exact ⟨hrest, hlt⟩
  · rw [Turn.restart_idle (hr ▸ hidle) hlt]
    exact Annealing.Lockstep.ret rfl

/-! ## A worker's run alone -/

/-- A worker's first `k` steps in a run of its own from `sh`. -/
def Worker.steps (cx : Setup σ ω S) (k : Nat) (sh : Shared σ ω S) (wk : Worker S) :
    Shared σ ω S × Worker S :=
  (fun p : Shared σ ω S × Worker S => Worker.step cx p.1 p.2)^[k] (sh, wk)

namespace Worker

variable {cx : Setup σ ω S}

theorem steps_succ (k : Nat) (sh : Shared σ ω S) (wk : Worker S) :
    steps cx (k + 1) sh wk = step cx (steps cx k sh wk).1 (steps cx k sh wk).2 :=
  Function.iterate_succ_apply' _ k _

theorem step_of_done {sh : Shared σ ω S} {wk : Worker S} (h : wk.done = true) :
    step cx sh wk = (sh, wk) := by
  obtain ⟨i, g, phase⟩ := wk
  cases phase with
  | start => cases h
  | walking it w => cases h
  | finished best st => rfl
  | failed e => rfl

theorem steps_of_done {k : Nat} {sh : Shared σ ω S} {wk : Worker S}
    (h : (steps cx k sh wk).2.done = true) (n : Nat) :
    steps cx (n + k) sh wk = steps cx k sh wk := by
  unfold steps
  rw [Function.iterate_add_apply]
  exact Function.iterate_fixed (step_of_done h) n

theorem runFor_eq_steps (n : Nat) (sh : Shared σ ω S) (wk : Worker S) :
    runFor cx n sh wk = steps cx n sh wk := by
  induction n generalizing sh wk with
  | zero => rfl
  | succ n ih =>
      unfold runFor steps
      rw [Function.iterate_succ_apply]
      dsimp only
      split
      · next hdone =>
          exact (Function.iterate_fixed (step_of_done hdone) n).symm
      · exact ih _ _

/-- A run that ends with a report never failed on the way, nor after. -/
theorem steps_not_failed {n : Nat} {sh : Shared σ ω S} {wk : Worker S} {q : S × Stats}
    (hok : (steps cx n sh wk).2.outcome = .ok q) (k : Nat) (e : RunError) :
    (steps cx k sh wk).2.phase ≠ .failed e := by
  intro hfail
  have hfin := phase_of_outcome hok
  rcases Nat.le_total k n with hkn | hnk
  · -- a failed worker is done, so it is still failed after `n` steps
    have hdone : (steps cx k sh wk).2.done = true := by simp only [done, hfail]
    rw [← Nat.sub_add_cancel hkn, steps_of_done hdone, hfail] at hfin
    cases hfin
  · have hdone : (steps cx n sh wk).2.done = true := by simp only [done, hfin]
    rw [← Nat.sub_add_cancel hnk, steps_of_done hdone, hfin] at hfail
    cases hfail

/-- A worker whose run alone from `sh` never fails, never sees the abort flag or the cancel
token raised, and never has a restart due. -/
def RunsAlone (cx : Setup σ ω S) (sh : Shared σ ω S) (wk : Worker S) : Prop :=
  ∀ k, (steps cx k sh wk).1.abort = false ∧
    cx.observer.cancelRequested (steps cx k sh wk).1.observer = false ∧
    (steps cx k sh wk).2.phase.Idle cx.config ∧ ∀ e, (steps cx k sh wk).2.phase ≠ .failed e

/-- A run alone that never fails, started steady and idle, stays steady and idle: the step from
a steady point is in lockstep with itself, so it ends steady. -/
theorem runsAlone (hl : cx.Lockstep (Steady cx) cx)
    (hcfg : cx.config.restartInterval = 0 ∨ cx.config.maxIterations ≤ cx.config.restartInterval)
    {sh : Shared σ ω S} {wk : Worker S} (habort : sh.abort = false)
    (htoken : cx.observer.cancelRequested sh.observer = false) (hidle : wk.phase.Idle cx.config)
    (hsafe : ∀ k e, (steps cx k sh wk).2.phase ≠ .failed e) : RunsAlone cx sh wk := by
  intro k
  induction k with
  | zero => exact ⟨habort, htoken, hidle, hsafe 0⟩
  | succ k ih =>
      obtain ⟨ha, ht, hi, -⟩ := ih
      obtain ⟨-, hq⟩ := hl.step (fun _ _ hq => hq.1)
        (fun _ _ e _ hfail => absurd (by rw [steps_succ]; exact hfail) (hsafe (k + 1) e))
        (⟨rfl, ha, ha, ht, ht⟩ : Steady cx ((steps cx k sh wk).1, (steps cx k sh wk).2.stream)
          ((steps cx k sh wk).1, (steps cx k sh wk).2.stream))
        fun it w hw => hl.iterate_idle _ it (by rw [hw] at hi; exact hi)
      rw [steps_succ]
      exact ⟨hq.2.1, hq.2.2.2.1, step_idle hcfg _ hi, by rw [← steps_succ]; exact hsafe (k + 1)⟩

end Worker

/-! ## Any interleaving -/

/-- A pool each of whose workers is where its run alone from `sh₀` is after the steps `c`
counts for it, with the abort flag and the cancel token down. -/
structure Tracks (cx : Setup σ ω S) (sh₀ : Shared σ ω S) (pool₀ : Array (Worker S))
    (c : Nat → Nat) (st : Shared σ ω S × Array (Worker S)) : Prop where
  size : st.2.size = pool₀.size
  abort : st.1.abort = false
  token : cx.observer.cancelRequested st.1.observer = false
  worker : ∀ j (h : j < st.2.size) (h₀ : j < pool₀.size),
    st.2[j] = (Worker.steps cx (c j) sh₀ pool₀[j]).2

namespace Tracks

variable {cx : Setup σ ω S} {sh₀ : Shared σ ω S} {pool₀ : Array (Worker S)}

/-- A step of worker `i` in the pool is its next step alone; the others are untouched. -/
theorem stepAt (hl : cx.Lockstep (Steady cx) cx)
    (halone : ∀ j (h : j < pool₀.size), Worker.RunsAlone cx sh₀ pool₀[j]) {c : Nat → Nat}
    {st : Shared σ ω S × Array (Worker S)} (h : Tracks cx sh₀ pool₀ c st) (i : Nat) :
    Tracks cx sh₀ pool₀ (fun j => c j + if i = j then 1 else 0) (Engine.stepAt cx i st) := by
  unfold Engine.stepAt
  split
  · next hi =>
      have hi₀ : i < pool₀.size := h.size ▸ hi
      obtain ⟨ha, ht, hidle, -⟩ := halone i hi₀ (c i)
      have hwk := h.worker i hi hi₀
      -- the worker's step in the pool is its step alone, from a steady point of its run alone
      have hstep : (Worker.step cx (Worker.steps cx (c i) sh₀ pool₀[i]).1 st.2[i]).2 =
            (Worker.step cx st.1 st.2[i]).2 ∧
          Steady cx ((Worker.step cx st.1 st.2[i]).1, (Worker.step cx st.1 st.2[i]).2.stream)
            ((Worker.step cx (Worker.steps cx (c i) sh₀ pool₀[i]).1 st.2[i]).1,
              (Worker.step cx (Worker.steps cx (c i) sh₀ pool₀[i]).1 st.2[i]).2.stream) :=
        hl.step (fun _ _ hq => hq.1)
          (fun _ _ e _ hfail => absurd (by rw [Worker.steps_succ, ← hwk]; exact hfail)
            ((halone i hi₀ (c i + 1)).2.2.2 e))
          ⟨rfl, h.abort, ha, h.token, ht⟩
          fun it w hw => hl.iterate_idle _ it (by rw [hwk] at hw; rw [hw] at hidle; exact hidle)
      generalize Worker.step cx st.1 st.2[i] = next at hstep
      obtain ⟨hnext, -, habort, -, htoken, -⟩ := hstep
      dsimp only
      refine ⟨by rw [Array.size_set, h.size], habort, htoken, fun j hj hj₀ => ?_⟩
      by_cases hij : i = j
      · subst hij
        rw [Array.getElem_set_self, ← hnext, hwk, ← Worker.steps_succ, if_pos rfl]
      · rw [Array.getElem_set_ne hi (by simpa using hj) hij, if_neg hij, Nat.add_zero]
        exact h.worker j _ hj₀
  · next hi =>
      refine ⟨h.size, h.abort, h.token, fun j hj hj₀ => ?_⟩
      have hij : i ≠ j := fun hij => hi (hij ▸ hj)
      rw [if_neg hij, Nat.add_zero]
      exact h.worker j hj hj₀

theorem interleave (hl : cx.Lockstep (Steady cx) cx)
    (halone : ∀ j (h : j < pool₀.size), Worker.RunsAlone cx sh₀ pool₀[j]) {c : Nat → Nat}
    {st : Shared σ ω S × Array (Worker S)} (h : Tracks cx sh₀ pool₀ c st) (schedule : List Nat) :
    Tracks cx sh₀ pool₀ (fun j => c j + schedule.count j)
      (schedule.foldl (fun st i => Engine.stepAt cx i st) st) := by
  induction schedule generalizing c st with
  | nil =>
      simp only [List.count_nil, Nat.add_zero, List.foldl_nil]
      exact h
  | cons i rest ih =>
      -- worker `i` takes one step, counted once more
      have hc : (fun j => (c j + if i = j then 1 else 0) + rest.count j) =
          fun j => c j + (i :: rest).count j := by
        funext j
        rw [List.count_cons]
        by_cases hij : i = j
        · subst hij
          simp only [if_pos, beq_self_eq_true]
          omega
        · simp only [hij, if_false, beq_iff_eq]
          omega
      rw [List.foldl_cons, ← hc]
      exact ih (h.stepAt hl halone i)

end Tracks

theorem Engine.count_inOrder {threads steps j : Nat} (hj : j < threads) :
    (Engine.inOrder threads steps).count j = steps := by
  induction threads with
  | zero => omega
  | succ n ih =>
      rw [Engine.inOrder, List.range_succ, List.flatMap_append, List.count_append,
        ← Engine.inOrder]
      simp only [List.flatMap_cons, List.flatMap_nil, List.append_nil, List.count_replicate,
        beq_iff_eq]
      rcases Nat.lt_succ_iff_lt_or_eq.1 hj with hlt | rfl
      · rw [ih hlt, if_neg (by omega)]
        omega
      · -- the last worker appears only in its own block
        have hnone : (Engine.inOrder j steps).count j = 0 := by
          rw [List.count_eq_zero]
          simp [Engine.inOrder]
        rw [if_pos rfl]
        omega

theorem mapM_id_of_ok {ε : Type} {xs : List (Except ε α)} (h : ∀ x ∈ xs, ∃ y, x = .ok y) :
    ∃ ys, xs.mapM id = .ok ys := by
  induction xs with
  | nil => exact ⟨[], rfl⟩
  | cons x rest ih =>
      obtain ⟨y, rfl⟩ := h x List.mem_cons_self
      obtain ⟨ys, hys⟩ := ih fun x hx => h x (List.mem_cons_of_mem _ hx)
      refine ⟨y :: ys, ?_⟩
      rw [List.mapM_cons, hys]
      rfl

/-- When every worker runs alone, a run of any schedule settles with each worker as it ends
alone: the schedule gives it some steps, and the run to the end at least as many as its run
alone, after which it is done. -/
theorem Engine.settle_alone {cx : Setup σ ω S} (hl : cx.Lockstep (Steady cx) cx)
    {seed : UInt64} {threads : Nat} {start : Shared σ ω S}
    (halone : ∀ j (h : j < (pool seed threads : Array (Worker S)).size),
      Worker.RunsAlone cx start (pool seed threads)[j])
    (habort : start.abort = false) (htoken : cx.observer.cancelRequested start.observer = false)
    (hdone : ∀ j < threads, (Worker.run cx start (Worker.fresh seed j)).2.done = true)
    (schedule : List Nat) :
    (settle cx seed threads schedule start).2.toList =
      (List.range threads).map fun j => (Worker.run cx start (Worker.fresh seed j)).2 := by
  have h₀ : Tracks cx start (pool seed threads) (fun _ => 0) (start, pool seed threads) :=
    ⟨rfl, habort, htoken, fun _ _ _ => rfl⟩
  have ht := h₀.interleave hl halone (schedule ++ inOrder threads (cx.config.maxIterations + 1))
  rw [← interleave_eq_foldl] at ht
  unfold settle
  apply List.ext_getElem
  · rw [List.length_map, List.length_range, Array.length_toList, ht.size, size_pool]
  · intro j h₁ h₂
    have hj : j < threads := by simpa using h₂
    have hj₀ : j < (pool seed threads : Array (Worker S)).size := by rw [size_pool]; exact hj
    rw [Array.getElem_toList, List.getElem_map, List.getElem_range]
    rw [ht.worker j _ hj₀, List.count_append, count_inOrder hj, Nat.zero_add]
    -- past its own run's length the worker stays where its run alone ended
    have hrun := hdone j hj
    rw [Worker.run, Worker.runFor_eq_steps] at hrun ⊢
    rw [getElem_pool, Worker.steps_of_done hrun]

/-- With restarts that never come due, a problem and an observer that ignore the shared state,
a cancel token that stays down, and workers that each succeed when run alone against an empty
register, every interleaving leaves each worker exactly as its run alone does, and succeeds
with the same reports: the same statistics and the same total of iterations, and a best
energy that is the least of the workers' bests. -/
theorem Engine.workers_walk_alone (e : Engine σ ω S) (sh : Shared σ ω S) (threads : Nat)
    (watchCancel : Bool) (entropy : UInt64)
    (hrestart : e.config.restartInterval = 0 ∨ e.config.maxIterations ≤ e.config.restartInterval)
    (hproblem : e.problem.Oblivious) (hobserver : e.observer.Oblivious)
    (hcancel : e.observer.cancelRequested sh.observer = false) (hthreads : threads ≠ 0)
    (hsolo : ∀ j < threads, ∃ q, (Worker.run (e.setup watchCancel)
      { sh with register := Register.empty, abort := false }
      (Worker.fresh (e.config.seed.getD entropy) j)).2.outcome = .ok q) :
    (let cx := e.setup watchCancel
     let seed := e.config.seed.getD entropy
     let start : Shared σ ω S := { sh with register := Register.empty, abort := false }
     let alone := (List.range threads).map fun j => (Worker.run cx start (Worker.fresh seed j)).2
     ∃ reports, (alone.map Worker.outcome).mapM id = .ok reports ∧
       ∀ schedule, (settle cx seed threads schedule start).2.toList = alone ∧
         ∃ r, (e.launch sh threads watchCancel entropy schedule).result = .ok r ∧
           r.workers = reports.map (·.2) ∧
           r.iterations = (reports.map (·.2)).foldl (fun n w => n + w.iterations) 0 ∧
           r.bestEnergy ∈ r.workers.map (·.bestEnergy) ∧
           ∀ w ∈ r.workers, r.bestEnergy ≤ w.bestEnergy) := by
  intro cx seed start alone
  have hl : cx.Lockstep (Steady cx) cx := Setup.steady hproblem hobserver
  -- each worker's run alone never fails, so it stays steady and idle, and ends done
  have halone : ∀ j (h : j < (pool seed threads : Array (Worker S)).size),
      Worker.RunsAlone cx start (pool seed threads)[j] := by
    intro j h
    obtain ⟨q, hq⟩ := hsolo j (by rw [size_pool] at h; exact h)
    rw [Worker.run, Worker.runFor_eq_steps] at hq
    rw [getElem_pool]
    exact Worker.runsAlone hl hrestart rfl hcancel trivial (Worker.steps_not_failed hq)
  have hdone : ∀ j < threads, (Worker.run cx start (Worker.fresh seed j)).2.done = true := by
    intro j hj
    obtain ⟨q, hq⟩ : ∃ q, (Worker.run cx start (Worker.fresh seed j)).2.outcome = .ok q :=
      hsolo j hj
    rw [Worker.done, Worker.phase_of_outcome hq]
  obtain ⟨reports, hreports⟩ : ∃ reports, (alone.map Worker.outcome).mapM id = .ok reports := by
    refine mapM_id_of_ok fun x hx => ?_
    obtain ⟨j, hj, rfl⟩ := List.mem_map.1 (List.map_map ▸ hx)
    exact hsolo j (List.mem_range.1 hj)
  refine ⟨reports, hreports, fun schedule => ?_⟩
  have hsettle := settle_alone hl halone rfl hcancel hdone schedule
  refine ⟨hsettle, ?_⟩
  -- the answer is that of the logging twin, whose workers are the same
  obtain ⟨hres, -⟩ := launch_recording e sh threads watchCancel entropy schedule
  obtain ⟨hrun, hlaunch⟩ := launch_recording_sound e sh threads watchCancel entropy schedule
  have hplain : settle cx seed threads schedule start =
      ((settle cx.recording seed threads schedule start.logged).1.unlogged,
        (settle cx.recording seed threads schedule start.logged).2) :=
    interleave_unlogged cx _ start.logged (pool seed threads)
  have hm : ((settle cx.recording seed threads schedule start.logged).2.toList.map
      Worker.outcome).mapM id = .ok reports := by
    rw [← congrArg Prod.snd hplain, hsettle]
    exact hreports
  have hne : reports ≠ [] := by
    intro hnil
    obtain ⟨wk, hwk⟩ : ∃ wk, wk ∈ alone :=
      ⟨_, List.mem_map_of_mem (List.mem_range.2 (Nat.pos_of_ne_zero hthreads))⟩
    obtain ⟨y, hy, -⟩ := (mapM_id_ok hreports).2 _ (List.mem_map_of_mem hwk)
    rw [hnil] at hy
    cases hy
  obtain ⟨r, hr, hworkers, hiter⟩ := hrun.conclude_ok hm hne
  obtain ⟨-, hmem, hle, -⟩ := hrun.conclude.2 r hr
  exact ⟨r, by rw [← hres, hlaunch]; exact hr, hworkers, hiter, hmem, hle⟩

/-- A one-iteration engine on a single solution of energy zero. -/
def Engine.still : Engine Unit Unit Unit where
  problem :=
    { randomSolution := pure (), energy := fun _ => pure 0.0, neighbor := fun _ => pure () }
  config := { maxIterations := 1 }

theorem Engine.still_walks_alone :
    (Engine.still.config.restartInterval = 0 ∨
        Engine.still.config.maxIterations ≤ Engine.still.config.restartInterval) ∧
      Engine.still.problem.Oblivious ∧ Engine.still.observer.Oblivious ∧
      Engine.still.observer.cancelRequested () = false ∧ 2 ≠ 0 ∧
      (∀ j < 2, ∃ q, (Worker.run (Engine.still.setup false)
        { register := Register.empty, problem := (), observer := (), abort := false }
        (Worker.fresh (Engine.still.config.seed.getD 0) j)).2.outcome = .ok q) ∧
      (let cx := Engine.still.setup false
       let seed := Engine.still.config.seed.getD 0
       let start : Shared Unit Unit Unit :=
         { register := Register.empty, problem := (), observer := (), abort := false }
       let alone := (List.range 2).map fun j => (Worker.run cx start (Worker.fresh seed j)).2
       ∃ reports, (alone.map Worker.outcome).mapM id = .ok reports ∧
         ∀ schedule, (Engine.settle cx seed 2 schedule start).2.toList = alone ∧
           ∃ r, (Engine.still.launch { register := Register.empty, problem := (), observer := () }
               2 false 0 schedule).result = .ok r ∧
             r.workers = reports.map (·.2) ∧
             r.iterations = (reports.map (·.2)).foldl (fun n w => n + w.iterations) 0 ∧
             r.bestEnergy ∈ r.workers.map (·.bestEnergy) ∧
             ∀ w ∈ r.workers, r.bestEnergy ≤ w.bestEnergy) := by
  have hobl : ∀ {α} (a : α), Eval.Oblivious (pure a : Eval Unit α) :=
    fun a => Lockstep.ret rfl
  have hsolo : ∀ j < 2, ∃ q, (Worker.run (Engine.still.setup false)
      { register := Register.empty, problem := (), observer := (), abort := false }
      (Worker.fresh (Engine.still.config.seed.getD 0) j)).2.outcome = .ok q := by
    intro j hj
    interval_cases j
    · exact ⟨_, rfl⟩
    · exact ⟨_, rfl⟩
  have hp : Engine.still.problem.Oblivious := ⟨hobl (), fun _ => hobl 0.0, fun _ => hobl ()⟩
  have ho : Engine.still.observer.Oblivious := ⟨fun _ h => (nomatch h), fun _ h => (nomatch h)⟩
  exact ⟨.inl rfl, hp, ho, rfl, by decide, hsolo,
    Engine.workers_walk_alone Engine.still _ 2 false 0 (.inl rfl) hp ho rfl (by decide) hsolo⟩

end Annealing
