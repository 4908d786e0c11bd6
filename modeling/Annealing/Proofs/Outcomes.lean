import Annealing.Proofs.Life

/-!
# How a run ends

A run steps its workers in any interleaving, then runs each to its end, and its answer is read
off the workers' outcomes in worker order. Three facts make that answer the right one.

Every worker ends. A walking worker's iteration stays below `maxIterations`, so a worker can
take at most `maxIterations + 1` steps (`Phase.stepsLeft`), and each step it takes brings it
closer to its end. The run to the end gives every worker that many steps of its own, and the
other workers' steps leave it alone (`Engine.interleave_life`).

Only a failure raises the abort flag, and nothing lowers it (`Worker.step_abort_cases`): every
piece of a turn keeps the flag, which the lockstep of a setup with itself at a fixed flag shows
(`Setup.lockstep_flagged`). So a raised flag, and a worker that stopped as aborted, are owed to
a worker that failed and stays failed (`Engine.Blamed`); and a walking worker that finds the
flag raised stops without a call (`Worker.step_aborted`).

A worker fails in one step of its life, and its failure is what that step read off its one
failing call, naming the worker (`Worker.FailedAt`). A run with a worker therefore answers with
the first failure in worker order, or with a result when every worker finished
(`RunSound.conclude_cases`), and never with the lack of a solution.
-/

namespace Annealing

open Annealing.Random

variable {σ ω S α : Type}

/-! ## The abort flag -/

/-- One state, with the abort flag at `a`. -/
def Flagged (a : Bool) (x₁ x₂ : Shared σ ω S × Stream) : Prop :=
  x₁ = x₂ ∧ x₁.1.abort = a

namespace Flagged

theorem perform (a : Bool) (i : Nat) (act : Eval σ α) :
    Lockstep (Flagged a) Eq (Turn.perform i act : Turn σ ω S α) (Turn.perform i act) := by
  rintro ⟨sh, g⟩ _ ⟨rfl, ha⟩
  simp only [Turn.perform]
  rcases act (sh.problem, g) with ⟨x, ⟨p, g'⟩⟩ | ⟨f, ⟨p, g'⟩⟩
  · exact ⟨rfl, rfl, ha⟩
  · exact ⟨rfl, rfl, ha⟩

theorem hook (a : Bool) (i : Nat) (act : EStateM String ω α) :
    Lockstep (Flagged a) Eq (Turn.hook i act : Turn σ ω S α) (Turn.hook i act) := by
  rintro ⟨sh, g⟩ _ ⟨rfl, ha⟩
  simp only [Turn.hook]
  rcases act sh.observer with ⟨x, o⟩ | ⟨m, o⟩
  · exact ⟨rfl, rfl, ha⟩
  · exact ⟨rfl, rfl, ha⟩

theorem draw (a : Bool) (f : Stream → α × Stream) :
    Lockstep (Flagged a) Eq (Turn.draw f : Turn σ ω S α) (Turn.draw f) := by
  rintro ⟨sh, g⟩ _ ⟨rfl, ha⟩
  exact ⟨rfl, rfl, ha⟩

theorem publish (a : Bool) (e : Float) (s : S) :
    Lockstep (Flagged a) Eq (Turn.publish e s : Turn σ ω S Unit) (Turn.publish e s) := by
  rintro ⟨sh, g⟩ _ ⟨rfl, ha⟩
  rw [Turn.publish_eq]
  exact ⟨rfl, rfl, ha⟩

end Flagged

/-- The pieces of a turn keep the abort flag where it is. -/
theorem Setup.lockstep_flagged (cx : Setup σ ω S) (a : Bool) : cx.Lockstep (Flagged a) cx where
  config := rfl
  observer := rfl
  watchCancel := rfl
  status := rfl
  randomSolution i := Flagged.perform a i _
  energy i _ := Flagged.perform a i _
  neighbor i _ := Flagged.perform a i _
  progress i _ _ _ _ _ _ := Flagged.hook a i _
  stop i _ _ _ _ _ := Flagged.hook a i _
  draw f := Flagged.draw a f
  publish e s := Flagged.publish a e s
  shared := by
    rintro x _ ⟨rfl, ha⟩
    exact ⟨⟨rfl, rfl⟩, rfl, ha⟩

/-- The restart writes the register and nothing else of the shared state. -/
theorem Setup.restart_flagged (cx : Setup σ ω S) (a : Bool) (i it : Nat) (w : Walk S) :
    Annealing.Lockstep (Flagged a) Eq (Turn.restart cx i it w) (Turn.restart cx i it w) := by
  have h := cx.lockstep_flagged a
  unfold Turn.restart
  rcases w.restarter.tick with ⟨due, r⟩
  dsimp only
  split
  · exact Annealing.Lockstep.ret rfl
  · refine Annealing.Lockstep.bind (h.randomSolution i) fun fresh _ hf => ?_
    subst hf
    refine Annealing.Lockstep.bind (h.evaluate i it fresh) fun e _ he => ?_
    subst he
    refine Annealing.Lockstep.bind Lockstep.get fun x₁ x₂ hx => ?_
    obtain ⟨rfl, ha⟩ := hx
    obtain ⟨sh, g⟩ := x₁
    dsimp only
    rcases r.offer fresh e sh.register with ⟨adopted, r', reg⟩
    dsimp only
    refine Annealing.Lockstep.bind (Annealing.Lockstep.set ⟨rfl, ha⟩) fun _ _ _ => ?_
    split
    · exact Annealing.Lockstep.ret rfl
    · exact Annealing.Lockstep.ret rfl

namespace Worker

variable {cx : Setup σ ω S} {sh : Shared σ ω S} {wk : Worker S}

/-- A step leaves the abort flag where it found it, or fails and raises it. -/
theorem step_abort_cases :
    (Worker.step cx sh wk).1.abort = sh.abort ∨
      (Worker.step cx sh wk).1.abort = true ∧
        ∃ e, (Worker.step cx sh wk).2.phase = .failed e := by
  have h := cx.lockstep_flagged sh.abort
  obtain ⟨i, g, phase⟩ := wk
  cases phase with
  | start =>
      have hb := h.begin i (sh, g) (sh, g) ⟨rfl, rfl⟩
      revert hb
      simp only [Worker.step]
      rcases Turn.begin cx i (sh, g) with ⟨a, y⟩ | ⟨e, y⟩
      · rintro ⟨-, -, ha⟩
        exact .inl ha
      · intro _
        exact .inr ⟨rfl, e, rfl⟩
  | walking it w =>
      have hb := h.iterate i it w (fun _ => True) (fun _ _ _ _ => trivial)
        (fun w _ => cx.restart_flagged sh.abort i it w) (sh, g) (sh, g) ⟨rfl, rfl⟩
      revert hb
      simp only [Worker.step, id]
      rcases Turn.iterate cx i it w (sh, g) with ⟨a, y⟩ | ⟨e, y⟩
      · rintro ⟨-, -, ha⟩
        exact .inl ha
      · intro _
        exact .inr ⟨rfl, e, rfl⟩
  | finished best st => exact .inl rfl
  | failed e => exact .inl rfl

/-- Only a failure raises the abort flag. -/
theorem step_abort (hok : ∀ e, (Worker.step cx sh wk).2.phase ≠ .failed e) :
    (Worker.step cx sh wk).1.abort = sh.abort := by
  rcases step_abort_cases with h | ⟨-, e, he⟩
  · exact h
  · exact absurd he (hok e)

/-- Nothing lowers the abort flag. -/
theorem step_abort_raised (h : sh.abort = true) : (Worker.step cx sh wk).1.abort = true := by
  rcases step_abort_cases with h' | ⟨h', -⟩
  · rw [h', h]
  · exact h'

theorem step_index : (Worker.step cx sh wk).2.index = wk.index := by
  obtain ⟨i, g, phase⟩ := wk
  cases phase with
  | start =>
      simp only [Worker.step]
      split <;> rfl
  | walking it w =>
      simp only [Worker.step]
      split <;> rfl
  | finished best st => rfl
  | failed e => rfl

end Worker

/-- An iteration that finds the abort flag raised ends the walk there, as aborted, and changes
nothing. -/
theorem Turn.iterate_aborted {cx : Setup σ ω S} {sh : Shared σ ω S} {g : Stream} {i it : Nat}
    {w : Walk S} (hlt : it < cx.config.maxIterations) (ha : sh.abort = true) :
    Turn.iterate cx i it w (sh, g) =
      .ok (.finished w.best (w.stats cx.config i .aborted)) (sh, g) := by
  have hnot : ¬ it ≥ cx.config.maxIterations := Nat.not_le.2 hlt
  simp only [Turn.iterate, Turn.advance, Turn.shared, hnot, ha, bind, EStateM.bind, pure,
    EStateM.pure, ite_false, ite_true]

namespace Worker

variable {cx : Setup σ ω S} {sh : Shared σ ω S} {t : Nat} {w : Walk S}

/-- A walking worker's step that finds the abort flag raised ends its walk as aborted and
changes no shared state. -/
theorem step_aborted {wk : Worker S} (hw : wk.phase = .walking t w)
    (hlt : t < cx.config.maxIterations) (ha : sh.abort = true) :
    Worker.step cx sh wk =
      (sh, { wk with phase := .finished w.best (w.stats cx.config wk.index .aborted) }) := by
  obtain ⟨i, g, phase⟩ := wk
  cases hw
  simp only [Worker.step, id, Turn.iterate_aborted hlt ha]

/-- Such a step calls nothing. -/
theorem calls_aborted {wk : Worker S} (hw : wk.phase = .walking t w)
    (hlt : t < cx.config.maxIterations) (ha : sh.abort = true) :
    Worker.problemCalls cx sh wk = [] ∧ Worker.hookCalls cx sh wk = [] := by
  unfold Worker.problemCalls Worker.hookCalls
  have haudited : Worker.step cx.audited sh.audited wk =
      (sh.audited, { wk with phase := .finished w.best (w.stats cx.config wk.index .aborted) }) :=
    step_aborted hw hlt ha
  rw [haudited]
  exact ⟨rfl, rfl⟩

end Worker

/-! ## Every worker ends -/

/-- A walking worker has an iteration left to run. -/
def Phase.Bounded (c : Config) (p : Phase S) : Prop :=
  ∀ t w, p = .walking t w → t < c.maxIterations

/-- How many more steps a worker in this phase can take before it is done: its start, if it
has not begun, and its iterations left. -/
def Phase.stepsLeft (c : Config) : Phase S → Nat
  | .start => c.maxIterations + 1
  | .walking t _ => c.maxIterations - t
  | .finished .. | .failed _ => 0

namespace Iterated

variable {cx : Setup σ ω S} {sh : Shared σ ω S} {i it : Nat} {g : Stream} {w : Walk S}
  {P : List (ProblemCall S)} {H : List (HookCall S)} {p : Phase S}

/-- An iteration ends the walk, or leads to the next iteration, which is not past the last. -/
theorem next (hit : Iterated cx sh i it g w P H p) (hlt : it < cx.config.maxIterations) :
    (∃ b st, p = .finished b st) ∨
      ∃ w', p = .walking (it + 1) w' ∧ it + 1 < cx.config.maxIterations := by
  cases hit with
  | spent => exact .inl ⟨_, _, rfl⟩
  | aborted => exact .inl ⟨_, _, rfl⟩
  | cancelled => exact .inl ⟨_, _, rfl⟩
  | ran _ _ _ _ _ _ _ hend =>
      cases hend with
      | stopped => exact .inl ⟨_, _, rfl⟩
      | last => exact .inl ⟨_, _, rfl⟩
      | restarted hne _ => exact .inr ⟨_, rfl, by omega⟩

/-- Only the abort flag ends a walk as aborted. -/
theorem abort_of_aborted (hit : Iterated cx sh i it g w P H p) {b : S} {st : Stats}
    (hp : p = .finished b st) (hst : st.termination = .aborted) : sh.abort = true := by
  cases hit with
  | spent =>
      cases hp
      cases hst
  | aborted _ habort => exact habort
  | cancelled =>
      cases hp
      cases hst
  | ran _ _ _ _ _ _ _ hend =>
      cases hend with
      | stopped =>
          cases hp
          cases hst
      | last =>
          cases hp
          cases hst
      | restarted => cases hp

end Iterated

namespace Worker

variable {cx : Setup σ ω S} {sh : Shared σ ω S} {wk : Worker S}

theorem bounded_step (hmax : 0 < cx.config.maxIterations) (h : wk.phase.Bounded cx.config)
    (sh : Shared σ ω S) : (Worker.step cx sh wk).2.phase.Bounded cx.config := by
  intro t' w' hw'
  have hok : ∀ e, (Worker.step cx sh wk).2.phase ≠ .failed e := fun e he => by
    rw [he] at hw'
    cases hw'
  rcases step_cases hok with
    ⟨-, hstep⟩ | ⟨-, s, v, w, -, -, -, hw, -⟩ | ⟨t, w, hwk, hit⟩
  · rw [hstep] at hw'
    exact h t' w' hw'
  · rw [hw] at hw'
    cases hw'
    exact hmax
  · rcases hit.next (h t w hwk) with ⟨b, st, hp⟩ | ⟨w'', hp, hlt⟩
    · rw [hp] at hw'
      cases hw'
    · rw [hp] at hw'
      cases hw'
      exact hlt

/-- Every step of a worker that is not done brings it closer to its end. -/
theorem stepsLeft_step (h : wk.phase.Bounded cx.config) (hnd : wk.done = false)
    (sh : Shared σ ω S) :
    (Worker.step cx sh wk).2.phase.stepsLeft cx.config < wk.phase.stepsLeft cx.config := by
  -- a worker that is not done has a step left
  have hpos : 0 < wk.phase.stepsLeft cx.config := by
    obtain ⟨i, g, phase⟩ := wk
    cases phase with
    | start => exact Nat.succ_pos _
    | walking t w =>
        have ht := h t w rfl
        simp only [Phase.stepsLeft]
        omega
    | finished b st => cases hnd
    | failed e => cases hnd
  by_cases hf : ∃ e, (Worker.step cx sh wk).2.phase = .failed e
  · obtain ⟨e, he⟩ := hf
    rw [he]
    exact hpos
  simp only [not_exists] at hf
  rcases step_cases hf with
    ⟨hdone, -⟩ | ⟨hs, s, v, w, -, -, -, hw, -⟩ | ⟨t, w, hwk, hit⟩
  · rw [hdone] at hnd
    cases hnd
  · rw [hs, hw]
    simp only [Phase.stepsLeft]
    omega
  · have ht := h t w hwk
    rw [hwk]
    rcases hit.next ht with ⟨b, st, hp⟩ | ⟨w', hp, hlt⟩
    · rw [hp]
      simp only [Phase.stepsLeft]
      omega
    · rw [hp]
      simp only [Phase.stepsLeft]
      omega

/-- A worker with its iterations in range is done after as many steps as it has left, from
any shared states. -/
theorem done_after (hmax : 0 < cx.config.maxIterations) (shs : List (Shared σ ω S))
    (h : wk.phase.Bounded cx.config) (hk : wk.phase.stepsLeft cx.config ≤ shs.length) :
    (Worker.after cx shs wk).done = true := by
  induction shs generalizing wk with
  | nil =>
      -- no step left: the worker is done
      obtain ⟨i, g, phase⟩ := wk
      cases phase with
      | start => simp [Phase.stepsLeft] at hk
      | walking t w =>
          have ht := h t w rfl
          simp only [Phase.stepsLeft, List.length_nil] at hk
          omega
      | finished b st => rfl
      | failed e => rfl
  | cons sh shs ih =>
      by_cases hd : wk.done = true
      · rw [after_of_done hd]
        exact hd
      · have hlt := stepsLeft_step h (Bool.eq_false_iff.2 hd) sh
        have hk' : (Worker.step cx sh wk).2.phase.stepsLeft cx.config ≤ shs.length := by
          simp only [List.length_cons] at hk
          omega
        exact ih (bounded_step hmax h sh) hk'

theorem bounded_after (hmax : 0 < cx.config.maxIterations) (shs : List (Shared σ ω S))
    (wk : Worker S) (h : wk.phase.Bounded cx.config) :
    (after cx shs wk).phase.Bounded cx.config := by
  induction shs generalizing wk with
  | nil => exact h
  | cons sh shs ih => exact ih _ (bounded_step hmax h sh)

/-- A step that ends a walk as aborted found the abort flag raised, unless the worker had
already stopped so. -/
theorem aborted_step {sh : Shared σ ω S} {wk : Worker S}
    (hok : ∀ e, (Worker.step cx sh wk).2.phase ≠ .failed e) {b : S} {st : Stats}
    (h : (Worker.step cx sh wk).2.phase = .finished b st) (hst : st.termination = .aborted) :
    wk.phase = .finished b st ∨ sh.abort = true := by
  rcases step_cases hok with ⟨-, hstep⟩ | ⟨-, s, v, w, -, -, -, hw, -⟩ | ⟨t, w, -, hit⟩
  · rw [hstep] at h
    exact .inl h
  · rw [hw] at h
    cases h
  · exact .inr (hit.abort_of_aborted h hst)

end Worker

/-! ## Failures name their worker -/

theorem Fault.worker_blame (f : Fault) (i : Nat) : (f.blame i).worker? = some i := by
  cases f <;> rfl

theorem ProblemCall.worker_failure {c : ProblemCall S} {i it : Nat} {err : RunError}
    (h : c.failure i it = some err) : err.worker? = some i := by
  cases c with
  | randomSolution a =>
      rcases a with f | s
      · cases h
        exact Fault.worker_blame f i
      · cases h
  | energy s a =>
      rcases a with f | v
      · cases h
        exact Fault.worker_blame f i
      · simp only [ProblemCall.failure] at h
        split at h
        · cases h
          rfl
        · cases h
  | neighbor s a =>
      rcases a with f | s'
      · cases h
        exact Fault.worker_blame f i
      · cases h

theorem HookCall.worker_failure {c : HookCall S} {i : Nat} {err : RunError}
    (h : c.failure i = some err) : err.worker? = some i := by
  cases c with
  | progress it e s a =>
      rcases a with m | u
      · cases h
        rfl
      · cases h
  | stop it e s a =>
      rcases a with m | b
      · cases h
        rfl
      · cases h

theorem worker_of_mem_failures {i it : Nat} {P : List (ProblemCall S)} {H : List (HookCall S)}
    {err : RunError} (h : err ∈ failures i it P H) : err.worker? = some i := by
  rcases List.mem_append.1 h with h | h
  · obtain ⟨c, -, hc⟩ := List.mem_filterMap.1 h
    exact ProblemCall.worker_failure hc
  · obtain ⟨c, -, hc⟩ := List.mem_filterMap.1 h
    exact HookCall.worker_failure hc

/-- How the failure `err` of worker `j` reads off the step it failed in, from `sh`: the one
failing call among the step's calls, at the iteration the step ran (`0` for the start); or,
every call of the start answered, the reservation of the adaptive controller's window. -/
def Worker.FailedAt (cx : Setup σ ω S) (j : Nat) (sh : Shared σ ω S) (wk : Worker S)
    (err : RunError) : Prop :=
  (∃ t, (wk.phase = .start ∧ t = 0 ∨ ∃ w, wk.phase = .walking t w) ∧
      failures j t (Worker.problemCalls cx sh wk) (Worker.hookCalls cx sh wk) = [err]) ∨
    wk.phase = .start ∧
      failures j 0 (Worker.problemCalls cx sh wk) (Worker.hookCalls cx sh wk) = [] ∧
      cx.config.strategy = .adaptive ∧ ∃ m, Adaptive.Controller.reserve cx.config.adaptive
        cx.config.initialTemperature cx.config.coolingRate = .error m ∧ err = .workerPanicked j m

namespace Worker

variable {cx : Setup σ ω S} {sh : Shared σ ω S} {wk : Worker S} {err : RunError}

theorem trace_index (shs : List (Shared σ ω S)) (wk : Worker S) :
    ∀ p ∈ Worker.trace cx shs wk, p.2.index = wk.index := by
  induction shs generalizing wk with
  | nil => simp [Worker.trace]
  | cons sh shs ih =>
      intro p hp
      rcases List.mem_cons.1 hp with rfl | hp
      · rfl
      · rw [ih _ p hp, step_index]

/-- A worker that fails in its life fails in one of its steps, a start or an iteration. -/
theorem failed_in_life {shs : List (Shared σ ω S)} {wk : Worker S}
    (hwk : ∀ e, wk.phase ≠ .failed e) {e : RunError} (h : (after cx shs wk).phase = .failed e) :
    ∃ p ∈ Worker.trace cx shs wk, (p.2.phase = .start ∨ ∃ t w, p.2.phase = .walking t w) ∧
      (Worker.step cx p.1 p.2).2.phase = .failed e := by
  induction shs generalizing wk with
  | nil => exact absurd h (hwk e)
  | cons sh shs ih =>
      by_cases hf : ∃ e', (Worker.step cx sh wk).2.phase = .failed e'
      · -- this step failed, and the worker stayed failed
        obtain ⟨e', he'⟩ := hf
        have hdone : (Worker.step cx sh wk).2.done = true := by simp [Worker.done, he']
        rw [after, after_of_done hdone, he'] at h
        cases h
        refine ⟨(sh, wk), List.mem_cons_self, ?_, he'⟩
        obtain ⟨i, g, phase⟩ := wk
        cases phase with
        | start => exact .inl rfl
        | walking t w => exact .inr ⟨t, w, rfl⟩
        | finished b st =>
            rw [step_of_done rfl] at he'
            cases he'
        | failed e'' => exact absurd rfl (hwk e'')
      · simp only [not_exists] at hf
        obtain ⟨p, hp, hrest⟩ := ih hf h
        exact ⟨p, List.mem_cons_of_mem _ hp, hrest⟩

theorem FailedAt.worker {j : Nat} (h : Worker.FailedAt cx j sh wk err) : err.worker? = some j := by
  rcases h with ⟨t, -, hf⟩ | ⟨-, -, -, m, -, rfl⟩
  · exact worker_of_mem_failures (by rw [hf]; exact List.mem_singleton_self err)
  · rfl

theorem failedAt_of_step (hwk : wk.phase = .start ∨ ∃ t w, wk.phase = .walking t w)
    (h : (Worker.step cx sh wk).2.phase = .failed err) : Worker.FailedAt cx wk.index sh wk err := by
  obtain ⟨i, g, phase⟩ := wk
  rcases hwk with hs | ⟨t, w, hw⟩
  · cases hs
    rcases step_start_failed h with hf | ⟨hf, hadaptive, m, hres, he⟩
    · exact .inl ⟨0, .inl ⟨rfl, rfl⟩, hf⟩
    · exact .inr ⟨rfl, hf, hadaptive, m, hres, he⟩
  · cases hw
    exact .inl ⟨t, .inr ⟨w, rfl⟩, step_walking_failed h⟩

/-- A worker that fails after any steps from its start failed in one of them, as that step
reads. -/
theorem failed_from_start {i : Nat} {g : Stream} {shs : List (Shared σ ω S)}
    (h : (after cx shs ⟨i, g, .start⟩).phase = .failed err) :
    ∃ p ∈ Worker.trace cx shs ⟨i, g, .start⟩,
      (Worker.step cx p.1 p.2).2.phase = .failed err ∧
      Worker.FailedAt cx i p.1 p.2 err := by
  obtain ⟨p, hp, hphase, hstep⟩ := failed_in_life (fun _ h => by cases h) h
  have hi : p.2.index = i := trace_index shs _ p hp
  exact ⟨p, hp, hstep, hi ▸ failedAt_of_step hphase hstep⟩

end Worker

/-! ## A worker's life in a pool -/

namespace Engine

variable {cx : Setup σ ω S}

theorem size_stepAt (i : Nat) (st : Shared σ ω S × Array (Worker S)) :
    (stepAt cx i st).2.size = st.2.size := by
  unfold stepAt
  split
  · simp
  · rfl

theorem interleave_cons (i : Nat) (rest : List Nat) (sh : Shared σ ω S)
    (pool : Array (Worker S)) :
    interleave cx (i :: rest) sh pool =
      interleave cx rest (stepAt cx i (sh, pool)).1 (stepAt cx i (sh, pool)).2 :=
  rfl

theorem size_interleave (cx : Setup σ ω S) (schedule : List Nat) (sh : Shared σ ω S)
    (pool : Array (Worker S)) :
    (interleave cx schedule sh pool).2.size = pool.size := by
  induction schedule generalizing sh pool with
  | nil => rfl
  | cons i rest ih => rw [interleave_cons, ih, size_stepAt]

/-- In any interleaving each worker of the pool lives a life of its own: it takes a step from
the shared state as it finds it each time the schedule names it, and only then. -/
theorem interleave_life (cx : Setup σ ω S) (schedule : List Nat) (sh : Shared σ ω S)
    (pool : Array (Worker S))
    {j : Nat} (hj : j < pool.size) :
    ∃ shs : List (Shared σ ω S), shs.length = schedule.count j ∧
      ∀ hj' : j < (interleave cx schedule sh pool).2.size,
        (interleave cx schedule sh pool).2[j] = Worker.after cx shs pool[j] := by
  induction schedule generalizing sh pool with
  | nil => exact ⟨[], rfl, fun _ => rfl⟩
  | cons i rest ih =>
      have hj₁ : j < (stepAt cx i (sh, pool)).2.size := by rw [size_stepAt]; exact hj
      obtain ⟨shs, hlen, hlife⟩ :=
        ih (stepAt cx i (sh, pool)).1 (stepAt cx i (sh, pool)).2 hj₁
      rw [interleave_cons]
      by_cases hij : i = j
      · -- worker `j` steps first, from `sh`
        subst hij
        refine ⟨sh :: shs, by rw [List.length_cons, hlen, List.count_cons_self], fun hj' => ?_⟩
        rw [hlife hj']
        unfold stepAt
        simp only [dif_pos hj, Array.getElem_set_self]
        rfl
      · -- another worker steps, and worker `j` is as it was
        refine ⟨shs, by rw [hlen, List.count_cons_of_ne hij], fun hj' => ?_⟩
        rw [hlife hj']
        congr 1
        unfold stepAt
        split
        · next hi => exact Array.getElem_set_ne hi hj hij
        · rfl

/-- After a run's schedule and its run to the end, every worker has lived a life from its fresh
start and is done. -/
theorem settled_life {cx : Setup σ ω S} (hmax : 0 < cx.config.maxIterations) (seed : UInt64)
    (threads : Nat) (schedule : List Nat) (sh : Shared σ ω S) {j : Nat}
    (hj : j < (settle cx seed threads schedule sh).2.size) :
    ∃ shs, (settle cx seed threads schedule sh).2[j] =
        Worker.after cx shs (Worker.fresh seed j) ∧
      (settle cx seed threads schedule sh).2[j].done = true := by
  unfold settle at hj ⊢
  have hjt : j < threads := by rw [size_interleave, size_pool] at hj; exact hj
  have hj₀ : j < (pool seed threads : Array (Worker S)).size := by rw [size_pool]; exact hjt
  obtain ⟨shs, hlen, hlife⟩ := interleave_life cx
    (schedule ++ inOrder threads (cx.config.maxIterations + 1)) sh (pool seed threads) hj₀
  simp only [getElem_pool] at hlife
  refine ⟨shs, hlife hj, ?_⟩
  rw [hlife hj]
  -- the run to the end gives the worker every step it can take
  apply Worker.done_after hmax shs (fun _ _ h => by cases h)
  rw [hlen, List.count_append, count_inOrder hjt]
  show cx.config.maxIterations + 1 ≤ _
  omega

/-- A pool in which a raised abort flag, or a worker that stopped as aborted, is owed to a
worker that failed. -/
def Blamed (st : Shared σ ω S × Array (Worker S)) : Prop :=
  (st.1.abort = true ∨ ∃ j, ∃ hj : j < st.2.size, ∃ b s,
      st.2[j].phase = .finished b s ∧ s.termination = .aborted) →
    ∃ k, ∃ hk : k < st.2.size, ∃ e, st.2[k].phase = .failed e

theorem Blamed.stepAt {st : Shared σ ω S × Array (Worker S)} (h : Blamed st) (i : Nat) :
    Blamed (stepAt cx i st) := by
  unfold Engine.stepAt
  split
  · next hi =>
      dsimp only
      intro hprem
      have hi' : i < (st.2.set i (st.2[i].step cx st.1).2).size := by simpa using hi
      by_cases hf : ∃ e, (st.2[i].step cx st.1).2.phase = .failed e
      · obtain ⟨e, he⟩ := hf
        exact ⟨i, hi', e, by rw [Array.getElem_set_self]; exact he⟩
      simp only [not_exists] at hf
      -- the raised flag, or the aborted worker, was there before the step
      have hbefore : st.1.abort = true ∨ ∃ j, ∃ hj : j < st.2.size, ∃ b s,
          st.2[j].phase = .finished b s ∧ s.termination = .aborted := by
        rcases hprem with ha | ⟨j, hj, b, s, hjp, hs⟩
        · exact .inl (by rw [← Worker.step_abort hf]; exact ha)
        · by_cases hij : i = j
          · subst hij
            rw [Array.getElem_set_self] at hjp
            rcases Worker.aborted_step hf hjp hs with hold | ha
            · exact .inr ⟨i, hi, b, s, hold, hs⟩
            · exact .inl ha
          · rw [Array.getElem_set_ne hi (by simpa using hj) hij] at hjp
            exact .inr ⟨j, by simpa using hj, b, s, hjp, hs⟩
      obtain ⟨k, hk, e, hke⟩ := h hbefore
      -- the failed worker did not step: its step would have left it failed
      have hik : i ≠ k := by
        rintro rfl
        have hdone : st.2[i].done = true := by simp [Worker.done, hke]
        exact hf e (by rw [Worker.step_of_done hdone]; exact hke)
      exact ⟨k, by simpa using hk, e, by rw [Array.getElem_set_ne hi hk hik]; exact hke⟩
  · exact h

theorem Blamed.interleave {sh : Shared σ ω S} {pool : Array (Worker S)} (h : Blamed (sh, pool))
    (schedule : List Nat) : Blamed (interleave cx schedule sh pool) := by
  induction schedule generalizing sh pool with
  | nil => exact h
  | cons i rest ih =>
      rw [interleave_cons]
      exact ih (h.stepAt i)

theorem Blamed.start (sh : Shared σ ω S) (seed : UInt64) (threads : Nat) :
    Blamed ({ sh with register := Register.empty, abort := false },
      (pool seed threads : Array (Worker S))) := by
  rintro (ha | ⟨j, hj, b, s, hjp, -⟩)
  · cases ha
  · simp [Worker.fresh] at hjp

/-- In a blamed pool whose workers all finished, none of them stopped as aborted. -/
theorem Blamed.not_aborted {st : Shared σ ω S × Array (Worker S)} (h : Blamed st)
    (hall : ∀ j (hj : j < st.2.size), ∃ b s, st.2[j].phase = .finished b s) {k : Nat}
    (hk : k < st.2.size) {b : S} {s : Stats} (hkp : st.2[k].phase = .finished b s) :
    s.termination ≠ .aborted := by
  intro habt
  obtain ⟨k', hk', e, hfail⟩ := h (.inr ⟨k, hk, b, s, hkp, habt⟩)
  obtain ⟨b', s', hfin⟩ := hall k' hk'
  rw [hfin] at hfail
  cases hfail

/-- No interleaving lowers the abort flag. -/
theorem abort_interleave {sh : Shared σ ω S} (h : sh.abort = true) (schedule : List Nat)
    (pool : Array (Worker S)) : (interleave cx schedule sh pool).1.abort = true := by
  induction schedule generalizing sh pool with
  | nil => exact h
  | cons i rest ih =>
      rw [interleave_cons]
      apply ih
      unfold Engine.stepAt
      split
      · exact Worker.step_abort_raised h
      · exact h

/-- Once the abort flag is raised in an interleaving, every walking worker's next step, however
much later, calls nothing and ends its walk as aborted. -/
theorem abort_stops_walks {cx : Setup σ ω S} (hmax : 0 < cx.config.maxIterations)
    {seed : UInt64} {threads : Nat} {start : Shared σ ω S} {pre mid : List Nat}
    (hpre : (interleave cx pre start (pool seed threads)).1.abort = true) {i : Nat}
    (hi : i < (interleave cx (pre ++ mid) start (pool seed threads)).2.size) {t : Nat} {w : Walk S}
    (hwalk : (interleave cx (pre ++ mid) start (pool seed threads)).2[i].phase = .walking t w) :
    let now := interleave cx (pre ++ mid) start (pool seed threads)
    Worker.problemCalls cx now.1 now.2[i] = [] ∧ Worker.hookCalls cx now.1 now.2[i] = [] ∧
      (Worker.step cx now.1 now.2[i]).1 = now.1 ∧ ∃ b st,
        (Worker.step cx now.1 now.2[i]).2.phase = .finished b st ∧ st.termination = .aborted := by
  intro now
  have hnow : now.1.abort = true := by
    show (interleave cx (pre ++ mid) start (pool seed threads)).1.abort = true
    rw [interleave_append]
    exact abort_interleave hpre mid _
  -- the worker has lived a life from its fresh start, so its iteration is in range
  have hi₀ : i < (pool seed threads : Array (Worker S)).size := by
    rw [← size_interleave cx (pre ++ mid) start]
    exact hi
  obtain ⟨shs, -, hlife⟩ :=
    interleave_life cx (pre ++ mid) start (pool seed threads) hi₀
  simp only [getElem_pool] at hlife
  have hlt : t < cx.config.maxIterations :=
    Worker.bounded_after hmax shs (Worker.fresh seed i) (fun _ _ h => by cases h) t w
      (by rw [← hlife hi]; exact hwalk)
  obtain ⟨hP, hH⟩ := Worker.calls_aborted hwalk hlt hnow
  rw [Worker.step_aborted hwalk hlt hnow]
  exact ⟨hP, hH, rfl, _, _, rfl, rfl⟩

end Engine

/-! ## The answer of a run -/

/-- A list of results that fails fails with its first failure. -/
theorem mapM_id_error {ε α : Type} {xs : List (Except ε α)} {e : ε}
    (h : xs.mapM id = .error e) :
    ∃ k, ∃ hk : k < xs.length, xs[k] = .error e ∧
      ∀ j (hj : j < k), ∃ y, xs[j] = .ok y := by
  induction xs with
  | nil => cases h
  | cons x rest ih =>
      rw [List.mapM_cons] at h
      rcases x with e' | y
      · cases h
        exact ⟨0, Nat.succ_pos _, rfl, fun j hj => absurd hj (Nat.not_lt_zero j)⟩
      rcases hrest : rest.mapM id with e'' | ys
      · rw [hrest] at h
        cases h
        obtain ⟨k, hk, hke, hbefore⟩ := ih hrest
        refine ⟨k + 1, by simpa using hk, hke, fun j hj => ?_⟩
        cases j with
        | zero => exact ⟨y, rfl⟩
        | succ j => exact hbefore j (by omega)
      · rw [hrest] at h
        cases h

/-- Workers whose outcomes all report have all finished, each report a worker's. -/
theorem Worker.finished_of_reports {ws : Array (Worker S)} {reports : List (S × Stats)}
    (hm : (ws.toList.map Worker.outcome).mapM id = .ok reports) :
    (∀ j (hj : j < ws.size), ∃ b st, ws[j].phase = .finished b st) ∧
      ∀ q ∈ reports, ∃ k, ∃ hk : k < ws.size, ws[k].phase = .finished q.1 q.2 := by
  refine ⟨fun j hj => ?_, fun q hq => ?_⟩
  · obtain ⟨q, -, hq⟩ :=
      (mapM_id_ok hm).2 _ (List.mem_map_of_mem (Array.getElem_mem_toList hj))
    exact ⟨q.1, q.2, Worker.phase_of_outcome hq⟩
  · obtain ⟨wk, hwk, hwo⟩ := List.mem_map.1 ((mapM_id_ok hm).1 q hq)
    obtain ⟨k, hk, rfl⟩ := Array.mem_iff_getElem.1 (Array.mem_toList_iff.1 hwk)
    exact ⟨k, hk, Worker.phase_of_outcome hwo⟩

theorem Worker.phase_of_outcome_error {wk : Worker S} (hd : wk.done = true) {e : RunError}
    (h : wk.outcome = .error e) : wk.phase = .failed e := by
  obtain ⟨i, g, phase⟩ := wk
  cases phase with
  | finished b st => cases h
  | failed e' =>
      cases h
      rfl
  | start => cases hd
  | walking t w => cases hd

/-- The conclusion of a sound run with a worker: the reports, when every worker has one, and a
result built from them; or else the first failure in worker order. -/
theorem RunSound.conclude_cases {st : Shared (σ × List (S × Float)) ω S × Array (Worker S)}
    (h : RunSound st) (hne : 0 < st.2.size) :
    (∃ reports r, (st.2.toList.map Worker.outcome).mapM id = .ok reports ∧
        (Engine.conclude st.1 (st.2.toList.map Worker.outcome)).result = .ok r ∧
        r.workers = reports.map (·.2)) ∨
      ∃ err, (st.2.toList.map Worker.outcome).mapM id = .error err ∧
        (Engine.conclude st.1 (st.2.toList.map Worker.outcome)).result = .error err := by
  rcases hm : (st.2.toList.map Worker.outcome).mapM id with err | reports
  · refine .inr ⟨err, rfl, ?_⟩
    unfold Engine.conclude
    rw [hm]
  · -- some worker reported, so the reports are not empty
    have hx : st.2[0].outcome ∈ st.2.toList.map Worker.outcome :=
      List.mem_map_of_mem (Array.getElem_mem_toList hne)
    obtain ⟨q, hq, -⟩ := (mapM_id_ok hm).2 _ hx
    obtain ⟨r, hr, hworkers, -⟩ := h.conclude_ok hm (List.ne_nil_of_mem hq)
    exact .inl ⟨reports, r, rfl, hr, hworkers⟩

namespace Engine

theorem execute_admitted (e : Engine σ ω S) (sh : Shared σ ω S) {threads : Nat}
    (hthreads : 0 < threads) (watchCancel : Bool) (entropy : UInt64) (schedule : List Nat) :
    e.execute sh false threads watchCancel entropy schedule =
      e.launch sh threads watchCancel entropy schedule := by
  have h : threads ≠ 0 := Nat.pos_iff_ne_zero.1 hthreads
  simp [execute, checkStart, h]

/-- A run's answer is the conclusion of a sound logging run whose workers end as the run's
own. -/
theorem launch_concludes (e : Engine σ ω S) (sh : Shared σ ω S) (threads : Nat)
    (watchCancel : Bool) (entropy : UInt64) (schedule : List Nat) :
    ∃ st : Shared (σ × List (S × Float)) ω S × Array (Worker S), RunSound st ∧
      st.2 = (settle (e.setup watchCancel) (e.config.seed.getD entropy) threads schedule
        { sh with register := Register.empty, abort := false }).2 ∧
      (e.launch sh threads watchCancel entropy schedule).result =
        (conclude st.1 (st.2.toList.map Worker.outcome)).result := by
  obtain ⟨hres, -⟩ := launch_recording e sh threads watchCancel entropy schedule
  obtain ⟨hsound, hlaunch⟩ := launch_recording_sound e sh threads watchCancel entropy schedule
  refine ⟨_, hsound, ?_, by rw [← hres, hlaunch]⟩
  have hstart : ({ sh with register := Register.empty, abort := false } : Shared σ ω S) =
      Shared.unlogged { sh.logged with register := Register.empty, abort := false } := rfl
  unfold settle
  rw [hstart, interleave_unlogged]
  rfl

/-- How a run that gets past its admission ends, in every interleaving of its workers: every
worker ends, finished or failed, so no run ends without a solution; it succeeds exactly when
every worker finished, and otherwise fails with the failure of the first worker in worker
order that failed, which names that worker and is what the failing step read off its one
failing call, at the iteration of the step (`Worker.FailedAt`); no successful run holds a
worker that stopped as aborted; and once the abort flag is raised, no walking worker runs
another iteration: its next step calls nothing and ends its walk as aborted. -/
theorem run_fails_with_first_failure (e : Engine σ ω S) (hc : e.config.validate = .ok ())
    (sh : Shared σ ω S) {threads : Nat} (hthreads : 0 < threads) (watchCancel : Bool)
    (entropy : UInt64) (schedule : List Nat) :
    let cx := e.setup watchCancel
    let seed := e.config.seed.getD entropy
    let start : Shared σ ω S := { sh with register := Register.empty, abort := false }
    let steps := schedule ++ inOrder threads (e.config.maxIterations + 1)
    let workers := (interleave cx steps start (pool seed threads)).2
    let run := e.execute sh false threads watchCancel entropy schedule
    workers.size = threads ∧ (∀ j (hj : j < workers.size), workers[j].done = true) ∧
    run.result ≠ .error .noSolution ∧
    ((∃ r, run.result = .ok r) ↔
      ∀ j (hj : j < workers.size), ∃ b st, workers[j].phase = .finished b st) ∧
    (∀ err, run.result = .error err → ∃ j, ∃ hj : j < workers.size,
      workers[j].phase = .failed err ∧ err.worker? = some j ∧
      (∀ k (hk : k < j), ∃ b st, workers[k].phase = .finished b st) ∧
      ∃ shs, workers[j] = Worker.after cx shs (Worker.fresh seed j) ∧
        ∃ p ∈ Worker.trace cx shs (Worker.fresh seed j),
          (Worker.step cx p.1 p.2).2.phase = .failed err ∧ Worker.FailedAt cx j p.1 p.2 err) ∧
    (∀ r, run.result = .ok r → ∀ w ∈ r.workers, w.termination ≠ .aborted) ∧
    ∀ pre mid i post, steps = pre ++ mid ++ i :: post →
      (interleave cx pre start (pool seed threads)).1.abort = true →
      let now := interleave cx (pre ++ mid) start (pool seed threads)
      ∀ (hi : i < now.2.size) t w, now.2[i].phase = .walking t w →
        Worker.problemCalls cx now.1 now.2[i] = [] ∧ Worker.hookCalls cx now.1 now.2[i] = [] ∧
        (Worker.step cx now.1 now.2[i]).1 = now.1 ∧ ∃ b st,
          (Worker.step cx now.1 now.2[i]).2.phase = .finished b st ∧
          st.termination = .aborted := by
  intro cx seed start steps workers run
  have hmax : 0 < cx.config.maxIterations := Config.maxIterations_pos hc
  have hsize : workers.size = threads := by
    show (interleave cx steps start (pool seed threads)).2.size = threads
    rw [size_interleave, size_pool]
  have hsettled : ∀ j (hj : j < workers.size), ∃ shs,
      workers[j] = Worker.after cx shs (Worker.fresh seed j) ∧ workers[j].done = true :=
    fun j hj => settled_life hmax seed threads schedule start hj
  -- a failed worker failed in one step of its life, which names it
  have hfailed : ∀ j (hj : j < workers.size) err, workers[j].phase = .failed err →
      err.worker? = some j ∧ ∃ shs, workers[j] = Worker.after cx shs (Worker.fresh seed j) ∧
        ∃ p ∈ Worker.trace cx shs (Worker.fresh seed j),
          (Worker.step cx p.1 p.2).2.phase = .failed err ∧ Worker.FailedAt cx j p.1 p.2 err := by
    intro j hj err hjf
    obtain ⟨shs, hlife, -⟩ := hsettled j hj
    rw [hlife] at hjf
    obtain ⟨p, hp, hstep, hat⟩ := Worker.failed_from_start hjf
    exact ⟨hat.worker, shs, hlife, p, hp, hstep, hat⟩
  -- the run's answer is the conclusion of a sound logging run that ends with these workers
  obtain ⟨⟨shR, poolR⟩, hsound, hpool, hres⟩ :=
    launch_concludes e sh threads watchCancel entropy schedule
  have hw : poolR = workers := hpool
  subst hw
  have hrun : run.result = (conclude shR (workers.toList.map Worker.outcome)).result := by
    show (e.execute sh false threads watchCancel entropy schedule).result = _
    rw [execute_admitted e sh hthreads]
    exact hres
  have hne : 0 < workers.size := hsize ▸ hthreads
  have hdone : ∀ j (hj : j < workers.size), workers[j].done = true := fun j hj => by
    obtain ⟨-, -, hd⟩ := hsettled j hj
    exact hd
  have hblamed : Blamed (interleave cx steps start (pool seed threads)) :=
    (Blamed.start sh seed threads).interleave steps
  rcases hsound.conclude_cases hne with ⟨reports, r, hm, hr, hworkers⟩ | ⟨err, hm, hr⟩
  · -- every worker finished
    obtain ⟨hall, hfrom⟩ := Worker.finished_of_reports hm
    refine ⟨hsize, hdone, ?_, ⟨fun _ => hall, fun _ => ⟨r, hrun.trans hr⟩⟩, ?_, ?_,
      fun pre mid i post _ hpre hi t w hwalk => abort_stops_walks hmax hpre hi hwalk⟩
    · rw [hrun, hr]
      nofun
    · intro err herr
      rw [hrun, hr] at herr
      cases herr
    · -- a report that stopped as aborted would owe it to a failed worker
      intro r' hr' w hw
      rw [hrun, hr] at hr'
      cases hr'
      rw [hworkers] at hw
      obtain ⟨q, hq, rfl⟩ := List.mem_map.1 hw
      obtain ⟨k, hk, hkq⟩ := hfrom q hq
      exact hblamed.not_aborted hall hk hkq
  · -- some worker failed, and the first in worker order gives the answer
    obtain ⟨k, hk, hke, hbefore⟩ := mapM_id_error hm
    have hkw : k < workers.size := by simpa using hk
    have hkout : workers[k].outcome = .error err := by simpa using hke
    have hkf := Worker.phase_of_outcome_error (hdone k hkw) hkout
    obtain ⟨hname, hrest⟩ := hfailed k hkw err hkf
    refine ⟨hsize, hdone, ?_, ⟨?_, ?_⟩, ?_, ?_,
      fun pre mid i post _ hpre hi t w hwalk => abort_stops_walks hmax hpre hi hwalk⟩
    · rw [hrun, hr]
      intro h
      cases h
      cases hname
    · rintro ⟨r, hr'⟩
      rw [hrun, hr] at hr'
      cases hr'
    · intro hall
      obtain ⟨b, st, hfin⟩ := hall k hkw
      rw [hfin] at hkf
      cases hkf
    · intro err' herr'
      rw [hrun, hr] at herr'
      cases herr'
      refine ⟨k, hkw, hkf, hname, fun j hj => ?_, hrest⟩
      obtain ⟨y, hy⟩ := hbefore j hj
      exact ⟨y.1, y.2, Worker.phase_of_outcome (by simpa using hy)⟩
    · intro r hr'
      rw [hrun, hr] at hr'
      cases hr'

end Engine

/-- An engine whose problem has no energy for any solution. -/
def Engine.noEnergy : Engine Unit Unit Unit where
  problem :=
    { randomSolution := pure (), energy := fun _ => throw (.failed "no energy")
      neighbor := fun _ => pure () }
  config := { maxIterations := 3 }

/-- Its two workers both fail at their start, and the run fails with the first one's failure. -/
theorem Engine.noEnergy_fails_first :
    (Engine.noEnergy.execute { register := Register.empty, problem := (), observer := () }
        false 2 false).result = .error (.problem 0 "no energy") ∧
      (Engine.noEnergy.execute { register := Register.empty, problem := (), observer := () }
        false 2 false).result ≠ .error .noSolution := by
  obtain ⟨-, -, hno, -⟩ := Engine.run_fails_with_first_failure Engine.noEnergy rfl
    { register := Register.empty, problem := (), observer := () } (by decide : 0 < 2) false 0 []
  exact ⟨rfl, hno⟩

end Annealing
