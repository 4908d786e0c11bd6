import Annealing.Proofs.Ledger
import Annealing.Proofs.Recording

/-!
# Every interleaving keeps the ledger

A worker's step keeps the ledger of the logging run and leaves the worker sound
(`Worker.step_steps`). Over a pool two more facts are needed. The register's best is the
best of some worker (`RunSound.held`): a worker that changes the register takes it over, and
one that leaves it alone keeps what it held. And a worker's best only falls (`Descends`).
Both are shown for one step of one worker, the other workers being untouched by it, and
then for any schedule by induction on it.

At the end of a run every worker is done. If all finished, the register covers each worker's
best, so the engine's reconciliation, which offers those bests once more, changes nothing,
and the register's best is the best of a finished worker: the least of the workers' bests.
-/

namespace Annealing

open Annealing.Random

variable {σ ω S : Type}

/-! ## Holding the register and falling bests -/

/-- A phase holds the solution `b` with its energy when its best is `b`. A failed worker holds
everything: once a worker fails the run fails, and what it held no longer matters. -/
def Phase.Holds (b : S × Float) : Phase S → Prop
  | .start => False
  | .walking _ w => (w.best, w.bestEnergy) = b
  | .finished best st => (best, st.bestEnergy) = b
  | .failed _ => True

theorem Phase.holds_of_best? {p : Phase S} {b : S × Float} (h : p.best? = some b) :
    p.Holds b := by
  cases p with
  | start => cases h
  | walking it w => exact Option.some.inj h
  | finished best st => exact Option.some.inj h
  | failed e => trivial

/-- What a worker's step, taking the register from `reg` to `reg'` and the worker from `p` to
`p'`, does to whoever holds the register: the worker holds what the register now holds, or the
register held it already and the worker, if it held it, still does. -/
def HeldOver (reg reg' : Register S) (p p' : Phase S) : Prop :=
  ∀ b, reg'.best = some b → p'.Holds b ∨ reg.best = some b ∧ (p.Holds b → p'.Holds b)

theorem HeldOver.refl (reg : Register S) (p : Phase S) : HeldOver reg reg p p :=
  fun _ hb => .inr ⟨hb, id⟩

theorem HeldOver.failed (reg reg' : Register S) (p : Phase S) (e : RunError) :
    HeldOver reg reg' p (.failed e) :=
  fun _ _ => .inl trivial

theorem Held.heldOver {reg reg' : Register S} {it : Nat} {w : Walk S} {b' : S × Float}
    {p' : Phase S} (h : Held reg reg' (w.best, w.bestEnergy) b') (hp' : p'.best? = some b') :
    HeldOver reg reg' (.walking it w) p' := by
  intro b hb
  rcases h with htake | ⟨rfl, rfl | hnot⟩
  · rw [htake] at hb
    cases hb
    exact .inl (Phase.holds_of_best? hp')
  · refine .inr ⟨hb, fun hold => ?_⟩
    obtain rfl : (w.best, w.bestEnergy) = b := hold
    exact Phase.holds_of_best? hp'
  · refine .inr ⟨hb, fun hold => ?_⟩
    obtain rfl : (w.best, w.bestEnergy) = b := hold
    exact absurd hb hnot

/-- A phase past its start whose best, if it has one, is at or below a best of `p`. -/
def Phase.Below (p' p : Phase S) : Prop :=
  p' ≠ .start ∧ ∀ b', p'.best? = some b' → ∃ b, p.best? = some b ∧ b'.2 ≤ b.2

theorem Phase.Below.trans {p p' p'' : Phase S} (h₂ : p''.Below p') (h₁ : p'.Below p) :
    p''.Below p := by
  refine ⟨h₂.1, fun b'' hb'' => ?_⟩
  obtain ⟨b', hb', hle'⟩ := h₂.2 b'' hb''
  obtain ⟨b, hb, hle⟩ := h₁.2 b' hb'
  exact ⟨b, hb, Float.le_trans hle' hle⟩

theorem Phase.Sound.later {x y : Shared (σ × List (S × Float)) ω S} {p : Phase S}
    (hs : p.Sound x.log x.register) (h : Later x y) : p.Sound y.log y.register := by
  cases p with
  | start => trivial
  | walking it w => exact Walk.Sound.later hs h
  | finished best st => exact ⟨h.log.subset hs.1, h.covers _ hs.2⟩
  | failed e => trivial

theorem Phase.Sound.below_self {log : List (S × Float)} {reg : Register S} {p : Phase S}
    (hs : p.Sound log reg) (hp : p ≠ .start) : p.Below p := by
  refine ⟨hp, fun b hb => ⟨b, hb, ?_⟩⟩
  cases p with
  | start => exact absurd rfl hp
  | walking it w =>
      cases hb
      exact Float.le_refl_of_isNaN_eq_false hs.covers.isNaN
  | finished best st =>
      cases hb
      exact Float.le_refl_of_isNaN_eq_false hs.2.isNaN
  | failed e => cases hb

/-! ## One step -/

/-- What a worker's step keeps, taking the shared state `x` to `y` and the worker's phase `p`
to `p'`. -/
structure Steps (x y : Shared (σ × List (S × Float)) ω S) (p p' : Phase S) : Prop where
  ledger : Ledger y.log y.register
  later : Later x y
  sound : p'.Sound y.log y.register
  held : HeldOver x.register y.register p p'
  below : p ≠ .start → p'.Below p

/-- A failing step: the failure keeps the ledger, and raising the abort flag changes nothing
the ledger reads. -/
theorem Steps.fail {x y : Shared (σ × List (S × Float)) ω S} {p : Phase S} (e : RunError)
    (hl : Ledger y.log y.register) (hlater : Later x y) :
    Steps x { y with abort := true } p (.failed e) :=
  ⟨hl, ⟨hlater.log, hlater.covers⟩, trivial, HeldOver.failed _ _ _ _,
    fun _ => ⟨nofun, fun _ hb => by cases hb⟩⟩

theorem Worker.step_steps {cx : Setup σ ω S} {sh : Shared (σ × List (S × Float)) ω S}
    {wk : Worker S} (hl : Ledger sh.log sh.register) (hs : wk.phase.Sound sh.log sh.register) :
    Steps sh (wk.step cx.recording sh).1 wk.phase (wk.step cx.recording sh).2.phase := by
  obtain ⟨i, g, phase⟩ := wk
  cases phase with
  | start =>
      simp only [Worker.step]
      rcases h : Turn.begin cx.recording i (sh, g) with ⟨w, ⟨y, g'⟩⟩ | ⟨e, ⟨y, g'⟩⟩
      · obtain ⟨hly, hlater, hsw, hreg⟩ := begin_ledger hl h
        refine ⟨hly, hlater, hsw, fun b hb => ?_, fun hne => absurd rfl hne⟩
        rcases hreg with hsame | hheld
        · exact .inr ⟨hsame ▸ hb, fun hold => hold.elim⟩
        · rw [hheld] at hb
          exact .inl (Option.some.inj hb)
      · obtain ⟨hly, hlater⟩ := begin_error_ledger hl h
        exact Steps.fail e hly hlater
  | walking it w =>
      have hs : Walk.Sound sh.log sh.register w := hs
      simp only [Worker.step, id]
      rcases h : Turn.iterate cx.recording i it w (sh, g) with ⟨p', ⟨y, g'⟩⟩ | ⟨e, ⟨y, g'⟩⟩
      · obtain ⟨hly, hlater, hsp, b, hb, hle, hheld⟩ := iterate_advances hl hs h
        refine ⟨hly, hlater, hsp, hheld.heldOver hb, fun _ => ⟨?_, fun b' hb' => ⟨_, rfl, ?_⟩⟩⟩
        · rintro rfl
          cases hb
        · rw [hb] at hb'
          cases hb'
          exact hle
      · obtain ⟨hly, hlater⟩ := iterate_error_ledger hl hs h
        exact Steps.fail e hly hlater
  | finished best st =>
      exact ⟨hl, Later.refl sh, hs, HeldOver.refl _ _, fun hne => hs.below_self hne⟩
  | failed e =>
      exact ⟨hl, Later.refl sh, hs, HeldOver.refl _ _, fun hne => hs.below_self hne⟩

/-! ## The pool -/

/-- What a logging run keeps after every step, over the whole pool: the ledger, every worker's
phase sound, and the register's best held by some worker. -/
structure RunSound (st : Shared (σ × List (S × Float)) ω S × Array (Worker S)) : Prop where
  ledger : Ledger st.1.log st.1.register
  sound : ∀ j (h : j < st.2.size), st.2[j].phase.Sound st.1.log st.1.register
  held : ∀ b, st.1.register.best = some b → ∃ j, ∃ h : j < st.2.size, st.2[j].phase.Holds b

/-- A later pool of the same workers, each past its start still past it, with its best at or
below where it was. -/
def Descends (pool pool' : Array (Worker S)) : Prop :=
  pool'.size = pool.size ∧ ∀ j (h : j < pool.size) (h' : j < pool'.size),
    pool[j].phase ≠ .start → pool'[j].phase.Below pool[j].phase

theorem Descends.trans {pool pool' pool'' : Array (Worker S)} (h₁ : Descends pool pool')
    (h₂ : Descends pool' pool'') : Descends pool pool'' := by
  refine ⟨h₂.1.trans h₁.1, fun j h h'' hne => ?_⟩
  have h' : j < pool'.size := h₁.1 ▸ h
  have hbelow := h₁.2 j h h' hne
  exact (h₂.2 j h' h'' hbelow.1).trans hbelow

theorem RunSound.descends_self {st : Shared (σ × List (S × Float)) ω S × Array (Worker S)}
    (h : RunSound st) : Descends st.2 st.2 :=
  ⟨rfl, fun j hj _ hne => (h.sound j hj).below_self hne⟩

variable {cx : Setup σ ω S}

/-- One step of worker `i`: it changes, the others are framed. -/
theorem RunSound.stepAt {st : Shared (σ × List (S × Float)) ω S × Array (Worker S)}
    (h : RunSound st) (i : Nat) :
    RunSound (Engine.stepAt cx.recording i st) ∧
      Descends st.2 (Engine.stepAt cx.recording i st).2 := by
  unfold Engine.stepAt
  split
  · next hi =>
      have hstep : Steps st.1 (st.2[i].step cx.recording st.1).1 st.2[i].phase
          (st.2[i].step cx.recording st.1).2.phase :=
        Worker.step_steps h.ledger (h.sound i hi)
      generalize st.2[i].step cx.recording st.1 = next at hstep
      dsimp only
      refine ⟨⟨hstep.ledger, fun j hj => ?_, fun b hb => ?_⟩, ⟨Array.size_set hi, ?_⟩⟩
      · -- worker `i` is sound after its step; the others stay sound at the later point
        by_cases hji : i = j
        · subst hji
          rw [Array.getElem_set_self]
          exact hstep.sound
        · rw [Array.getElem_set_ne hi (by simpa using hj) hji]
          exact (h.sound j _).later hstep.later
      · -- the register's best is held by worker `i`, or by whoever held it before
        have hi' : i < (st.2.set i next.2).size := by simpa using hi
        rcases hstep.held b hb with hnew | ⟨hold, hkeep⟩
        · exact ⟨i, hi', by rw [Array.getElem_set_self]; exact hnew⟩
        obtain ⟨j, hj, hjb⟩ := h.held b hold
        by_cases hji : i = j
        · subst hji
          exact ⟨i, hi', by rw [Array.getElem_set_self]; exact hkeep hjb⟩
        · exact ⟨j, by simpa using hj, by rw [Array.getElem_set_ne hi hj hji]; exact hjb⟩
      · intro j hj hj' hne
        by_cases hji : i = j
        · subst hji
          rw [Array.getElem_set_self]
          exact hstep.below hne
        · rw [Array.getElem_set_ne hi hj hji]
          exact (h.sound j hj).below_self hne
  · exact ⟨h, h.descends_self⟩

/-- Any schedule keeps the invariant, and every worker's best only falls. -/
theorem RunSound.interleave {sh : Shared (σ × List (S × Float)) ω S} {pool : Array (Worker S)}
    (h : RunSound (sh, pool)) (cx : Setup σ ω S) (schedule : List Nat) :
    RunSound (Engine.interleave cx.recording schedule sh pool) ∧
      Descends pool (Engine.interleave cx.recording schedule sh pool).2 := by
  rw [Engine.interleave_eq_foldl]
  show RunSound _ ∧ Descends (sh, pool).2 _
  generalize (sh, pool) = st at h ⊢
  induction schedule generalizing st with
  | nil => exact ⟨h, h.descends_self⟩
  | cons i rest ih =>
      obtain ⟨hstep, hdesc⟩ := h.stepAt i
      obtain ⟨hrun, hdesc'⟩ := ih _ hstep
      exact ⟨hrun, hdesc.trans hdesc'⟩

theorem Engine.interleave_append (cx : Setup σ ω S) (first rest : List Nat)
    (sh : Shared σ ω S) (pool : Array (Worker S)) :
    Engine.interleave cx (first ++ rest) sh pool =
      Engine.interleave cx rest (Engine.interleave cx first sh pool).1
        (Engine.interleave cx first sh pool).2 := by
  rw [Engine.interleave_eq_foldl, Engine.interleave_eq_foldl, Engine.interleave_eq_foldl,
    List.foldl_append]

@[simp] theorem Engine.size_pool (seed : UInt64) (threads : Nat) :
    (Engine.pool seed threads : Array (Worker S)).size = threads :=
  Array.size_ofFn

@[simp] theorem Engine.getElem_pool {seed : UInt64} {threads j : Nat}
    (h : j < (Engine.pool seed threads : Array (Worker S)).size) :
    (Engine.pool seed threads : Array (Worker S))[j] = Worker.fresh seed j :=
  Array.getElem_ofFn ..

theorem RunSound.start (sh : Shared σ ω S) (seed : UInt64) (threads : Nat) :
    RunSound ({ sh.logged with register := Register.empty, abort := false },
      (Engine.pool seed threads : Array (Worker S))) where
  ledger := Ledger.empty
  sound j hj := by simp [Worker.fresh, Phase.Sound]
  held b hb := by cases hb

/-! ## The end of a run -/

theorem mapM_id_ok {ε α : Type} {xs : List (Except ε α)} {ys : List α}
    (h : xs.mapM id = .ok ys) :
    (∀ y ∈ ys, Except.ok y ∈ xs) ∧ ∀ x ∈ xs, ∃ y ∈ ys, x = .ok y := by
  induction xs generalizing ys with
  | nil =>
      cases h
      simp
  | cons x rest ih =>
      rw [List.mapM_cons] at h
      rcases x with e | y
      · cases h
      rcases hrest : rest.mapM id with e | ys'
      · rw [hrest] at h
        cases h
      rw [hrest] at h
      cases h
      obtain ⟨ih₁, ih₂⟩ := ih hrest
      refine ⟨fun y' hy' => ?_, fun x hx => ?_⟩
      · rcases List.mem_cons.1 hy' with rfl | hy'
        · exact List.mem_cons_self
        · exact List.mem_cons_of_mem _ (ih₁ y' hy')
      · rcases List.mem_cons.1 hx with rfl | hx
        · exact ⟨y, List.mem_cons_self, rfl⟩
        · obtain ⟨y', hy', rfl⟩ := ih₂ x hx
          exact ⟨y', List.mem_cons_of_mem _ hy', rfl⟩

theorem Worker.phase_of_outcome {wk : Worker S} {q : S × Stats} (h : wk.outcome = .ok q) :
    wk.phase = .finished q.1 q.2 := by
  obtain ⟨i, g, phase⟩ := wk
  cases phase with
  | finished best st =>
      cases h
      rfl
  | start => cases h
  | walking it w => cases h
  | failed e => cases h

theorem Engine.reconcile_covered {sh : Shared σ ω S} (hr : sh.register.Valid)
    {reports : List (S × Stats)} (hc : ∀ q ∈ reports, sh.register.Covers q.2.bestEnergy) :
    Engine.reconcile sh reports = sh := by
  induction reports with
  | nil => rfl
  | cons q rest ih =>
      obtain ⟨best, st⟩ := q
      have hq := hc (best, st) List.mem_cons_self
      have hfirst : (if st.bestEnergy ≤ sh.register.bestEnergy then
          { sh with register := (sh.register.offer st.bestEnergy best).2 } else sh) = sh := by
        split
        · rw [hq.offer_eq hr]
        · rfl
      simp only [Engine.reconcile, List.foldl_cons] at ih ⊢
      rw [hfirst]
      exact ih fun q hq => hc q (List.mem_cons_of_mem _ hq)

/-- Once every worker has reported, the register covers each report's energy: each is a
finished worker's best. -/
theorem RunSound.reports_covered {st : Shared (σ × List (S × Float)) ω S × Array (Worker S)}
    (h : RunSound st) {reports : List (S × Stats)}
    (hm : (st.2.toList.map Worker.outcome).mapM id = .ok reports) :
    ∀ q ∈ reports, st.1.register.Covers q.2.bestEnergy := by
  intro q hq
  obtain ⟨wk, hwk, hout⟩ := List.mem_map.1 ((mapM_id_ok hm).1 q hq)
  obtain ⟨j, hj, rfl⟩ := Array.mem_iff_getElem.1 (Array.mem_toList_iff.1 hwk)
  have hs := h.sound j hj
  rw [Worker.phase_of_outcome hout] at hs
  exact hs.2

/-- At the end of a sound run the conclusion leaves the shared state as it is, and a result is
the register's best, the least of the workers' bests, with the register's improvements. -/
theorem RunSound.conclude {st : Shared (σ × List (S × Float)) ω S × Array (Worker S)}
    (h : RunSound st) :
    (Engine.conclude st.1 (st.2.toList.map Worker.outcome)).shared = st.1 ∧
      ∀ r, (Engine.conclude st.1 (st.2.toList.map Worker.outcome)).result = .ok r →
        st.1.register.best = some (r.best, r.bestEnergy) ∧
        r.bestEnergy ∈ r.workers.map (·.bestEnergy) ∧
        (∀ w ∈ r.workers, r.bestEnergy ≤ w.bestEnergy) ∧
        r.improvementHistory = st.1.register.history := by
  unfold Engine.conclude
  rcases hm : (st.2.toList.map Worker.outcome).mapM id with err | reports
  · exact ⟨rfl, fun r hr => by cases hr⟩
  have hcov := h.reports_covered hm
  dsimp only
  rw [Engine.reconcile_covered h.ledger.valid hcov]
  rcases hb : st.1.register.best with _ | ⟨best, E⟩
  · exact ⟨rfl, fun r hr => by cases hr⟩
  refine ⟨rfl, fun r hr => ?_⟩
  cases hr
  refine ⟨rfl, ?_, fun w hw => ?_, rfl⟩
  · -- the register's best is held by a worker, which finished with it
    obtain ⟨j, hj, hold⟩ := h.held _ hb
    obtain ⟨q, hq, hout⟩ := (mapM_id_ok hm).2 _ (List.mem_map_of_mem (Array.getElem_mem_toList hj))
    rw [Worker.phase_of_outcome hout] at hold
    obtain ⟨-, hE⟩ := Prod.mk.inj hold
    exact List.mem_map.2 ⟨q.2, List.mem_map_of_mem hq, hE⟩
  · obtain ⟨q, hq, rfl⟩ := List.mem_map.1 hw
    have hE := Register.bestEnergy_of_best hb
    exact hE ▸ (hcov q hq).2

/-- Once every worker has reported, and there is a report, the run succeeds with the reports'
statistics. -/
theorem RunSound.conclude_ok {st : Shared (σ × List (S × Float)) ω S × Array (Worker S)}
    (h : RunSound st) {reports : List (S × Stats)}
    (hm : (st.2.toList.map Worker.outcome).mapM id = .ok reports) (hne : reports ≠ []) :
    ∃ r, (Engine.conclude st.1 (st.2.toList.map Worker.outcome)).result = .ok r ∧
      r.workers = reports.map (·.2) ∧
      r.iterations = (reports.map (·.2)).foldl (fun n w => n + w.iterations) 0 := by
  have hcov := h.reports_covered hm
  obtain ⟨q, hq⟩ := List.exists_mem_of_ne_nil reports hne
  unfold Engine.conclude
  rw [hm]
  dsimp only
  rw [Engine.reconcile_covered h.ledger.valid hcov]
  -- the register covers a report, so it is filled
  rcases hb : st.1.register.best with _ | ⟨best, E⟩
  · exact absurd hb (hcov q hq).1
  · exact ⟨_, rfl, rfl, rfl⟩

/-- The logging run settles in a sound state, and its answer is that state's conclusion. -/
theorem Engine.launch_recording_sound (e : Engine σ ω S) (sh : Shared σ ω S) (threads : Nat)
    (watchCancel : Bool) (entropy : UInt64) (schedule : List Nat) :
    RunSound (Engine.settle (e.setup watchCancel).recording (e.config.seed.getD entropy) threads
        schedule { sh.logged with register := Register.empty, abort := false }) ∧
      e.recording.launch sh.logged threads watchCancel entropy schedule =
        Engine.conclude
          (Engine.settle (e.setup watchCancel).recording (e.config.seed.getD entropy) threads
            schedule { sh.logged with register := Register.empty, abort := false }).1
          ((Engine.settle (e.setup watchCancel).recording (e.config.seed.getD entropy) threads
            schedule { sh.logged with register := Register.empty, abort := false }).2.toList.map
              Worker.outcome) :=
  ⟨((RunSound.start sh (e.config.seed.getD entropy) threads).interleave _ _).1, rfl⟩

end Annealing
