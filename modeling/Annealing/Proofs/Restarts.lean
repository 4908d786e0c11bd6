import Annealing.Proofs.Life

/-!
# Restarts

A restart schedule with interval `k > 0` counts the questions asked since the last offer and
says yes to the `k`-th; an offer starts the count again. Under any sequence of questions and
offers the schedule is therefore a counter of the questions since the last offer
(`Restarter.run_sinceLast`), of offers and of adopted offers (`Restarter.run_counts`).

In a walk the question is asked after every iteration that neither ran the last iteration nor
was stopped by the stop hook, and an iteration stopped before its move asks none. So before
iteration `t` the schedule has been asked `t` times, and has restarted `t / k` times, after
the iterations `k - 1, 2k - 1, …` (`Restarter.Paced`). What a finished worker reports follows
by induction over its life (`Worker.RestartLog`): `st.asked / k` restarts, one fresh solution
for each besides the first, and one energy for each solution and each iteration.
-/

namespace Annealing

variable {σ ω S : Type}

/-! ## Counting with a remainder -/

/-- One more question: the remainder wraps to `0` exactly when the count reaches `k`. -/
theorem mod_succ_eq {t k : Nat} (hk : 0 < k) :
    (t + 1) % k = if k ≤ t % k + 1 then 0 else t % k + 1 := by
  have hlt := Nat.mod_lt t hk
  rw [Nat.add_mod_eq_ite]
  rcases Nat.lt_or_ge 1 k with h1 | h1
  · rw [Nat.mod_eq_of_lt h1]
    split <;> omega
  · obtain rfl : k = 1 := by omega
    simp [Nat.mod_one]

theorem div_succ_eq {t k : Nat} (hk : 0 < k) :
    (t + 1) / k = t / k + if k ≤ t % k + 1 then 1 else 0 := by
  split
  · next h =>
      apply Nat.succ_div_of_dvd
      rw [Nat.dvd_iff_mod_eq_zero, mod_succ_eq hk, if_pos h]
  · next h =>
      rw [Nat.add_zero]
      apply Nat.succ_div_of_not_dvd
      rw [Nat.dvd_iff_mod_eq_zero, mod_succ_eq hk, if_neg h]
      omega

/-! ## The schedule under any calls -/

namespace Restarter

theorem tick_of_zero {r : Restarter} (h : r.interval = 0) : r.tick = (false, r) := by
  simp [tick, h]

theorem tick_of_pos {r : Restarter} (h : 0 < r.interval) :
    r.tick = (decide (r.sinceLast + 1 ≥ r.interval), { r with sinceLast := r.sinceLast + 1 }) := by
  simp [tick, Nat.pos_iff_ne_zero.1 h]

@[simp] theorem tick_interval (r : Restarter) : r.tick.2.interval = r.interval := by
  unfold tick
  split <;> rfl

@[simp] theorem tick_attempts (r : Restarter) : r.tick.2.attempts = r.attempts := by
  unfold tick
  split <;> rfl

@[simp] theorem tick_adopted (r : Restarter) : r.tick.2.adopted = r.adopted := by
  unfold tick
  split <;> rfl

/-- An offer starts the count again, counts itself, and counts an adoption when the register
takes the solution. -/
theorem offer_counts (r : Restarter) (s : S) (e : Float) (reg : Register S) :
    (r.offer s e reg).2.1.interval = r.interval ∧ (r.offer s e reg).2.1.sinceLast = 0 ∧
      (r.offer s e reg).2.1.attempts = r.attempts + 1 ∧
      (r.offer s e reg).2.1.adopted = r.adopted + if (reg.offer e s).1 then 1 else 0 := by
  unfold offer
  rcases reg.offer e s with ⟨_ | _, reg'⟩ <;> simp

/-- A call on a restart schedule: the question after an iteration, or the offer of a fresh
solution, with its energy, to a register. -/
inductive Call (S : Type)
  | tick
  | offer (solution : S) (energy : Float) (reg : Register S)

namespace Call

def isTick : Call S → Bool
  | .tick => true
  | .offer .. => false

def isOffer : Call S → Bool
  | .tick => false
  | .offer .. => true

/-- An offer that the register takes. -/
def taken : Call S → Bool
  | .tick => false
  | .offer s e reg => (reg.offer e s).1

end Call

/-- The schedule after a call. -/
def apply (r : Restarter) : Call S → Restarter
  | .tick => r.tick.2
  | .offer s e reg => (r.offer s e reg).2.1

/-- The schedule after the calls `cs`, in order. -/
def run (r : Restarter) (cs : List (Call S)) : Restarter :=
  cs.foldl apply r

/-- The questions asked since the last offer, or since the start. -/
def ticksSince (cs : List (Call S)) : Nat :=
  (cs.reverse.takeWhile Call.isTick).length

theorem run_snoc (r : Restarter) (cs : List (Call S)) (c : Call S) :
    r.run (cs ++ [c]) = (r.run cs).apply c := by
  simp [run, List.foldl_append]

theorem ticksSince_tick (cs : List (Call S)) : ticksSince (cs ++ [.tick]) = ticksSince cs + 1 := by
  simp only [ticksSince, List.reverse_append, List.reverse_singleton, List.singleton_append]
  rfl

theorem ticksSince_offer (cs : List (Call S)) (s : S) (e : Float) (reg : Register S) :
    ticksSince (cs ++ [.offer s e reg]) = 0 := by
  simp [ticksSince, Call.isTick]

theorem run_interval (k : Nat) (cs : List (Call S)) : ((start k).run cs).interval = k := by
  induction cs using List.reverseRecOn with
  | nil => rfl
  | append_singleton cs c ih =>
      rw [run_snoc]
      cases c with
      | tick => simp [apply, ih]
      | offer s e reg => simp [apply, (offer_counts _ s e reg).1, ih]

/-- The count since the last offer: none without an interval, else the questions asked since
the last offer. -/
theorem run_sinceLast (k : Nat) (cs : List (Call S)) :
    ((start k).run cs).sinceLast = if k = 0 then 0 else ticksSince cs := by
  induction cs using List.reverseRecOn with
  | nil => simp [start, run, ticksSince]
  | append_singleton cs c ih =>
      rw [run_snoc]
      cases c with
      | tick =>
          rw [ticksSince_tick]
          rcases Nat.eq_zero_or_pos k with rfl | hk
          · simp [apply, tick_of_zero (run_interval 0 cs), ih]
          · have hk' := (run_interval k cs).symm ▸ hk
            simp [apply, tick_of_pos hk', ih, Nat.pos_iff_ne_zero.1 hk]
      | offer s e reg =>
          rw [ticksSince_offer]
          simp [apply, (offer_counts _ s e reg).2.1]

/-- The schedule counts the offers made to it, and the offers the register took. -/
theorem run_counts (k : Nat) (cs : List (Call S)) :
    ((start k).run cs).attempts = cs.countP Call.isOffer ∧
      ((start k).run cs).adopted = cs.countP Call.taken := by
  induction cs using List.reverseRecOn with
  | nil => exact ⟨rfl, rfl⟩
  | append_singleton cs c ih =>
      rw [run_snoc, List.countP_append, List.countP_append]
      cases c with
      | tick => simp [apply, ih, Call.isOffer, Call.taken]
      | offer s e reg =>
          obtain ⟨-, -, hatt, hadopt⟩ := offer_counts ((start k).run cs) s e reg
          have h₁ : [Call.offer s e reg].countP Call.isOffer = 1 := rfl
          have h₂ : [Call.offer s e reg].countP Call.taken =
              if (reg.offer e s).1 then 1 else 0 := by
            rw [List.countP_singleton]
            rfl
          refine ⟨?_, ?_⟩
          · show (((start k).run cs).offer s e reg).2.1.attempts = _
            rw [hatt, ih.1, h₁]
          · show (((start k).run cs).offer s e reg).2.1.adopted = _
            rw [hadopt, ih.2, h₂]

/-- The question after a count of `n` says yes exactly when the interval is reached. -/
theorem tick_fst_of_pos {r : Restarter} (h : 0 < r.interval) :
    r.tick.1 = true ↔ r.interval ≤ r.sinceLast + 1 := by
  simp [tick_of_pos h]

end Restarter

theorem Register.offer_holds {reg : Register S} {e : Float} {s : S}
    (h : (reg.offer e s).1 = true) : (reg.offer e s).2.best = some (s, e) := by
  unfold Register.offer at *
  split at h
  · cases h
  · rename_i hkeep
    rw [if_neg hkeep]
    revert h
    unfold Register.commit
    -- a filled register takes only a lower energy; an empty one takes any
    split
    · split
      · intro h
        cases h
      · intro _
        rfl
    · intro _
      rfl

/-! ## The schedule of a walk -/

namespace Restarter

/-- A schedule before iteration `t` of its walk: asked `t` times, it counts `t mod k`
questions since its last offer and `t / k` offers, and at most as many adoptions. -/
structure Paced (r : Restarter) (t : Nat) : Prop where
  sinceLast : r.sinceLast = if r.interval = 0 then 0 else t % r.interval
  attempts : r.attempts = t / r.interval
  adopted : r.adopted ≤ r.attempts

theorem Paced.start (k : Nat) : (Restarter.start k).Paced 0 :=
  ⟨by split <;> simp [Restarter.start], by simp [Restarter.start], le_refl _⟩

variable {r : Restarter} {t : Nat}

/-- A restart is due after iteration `t` exactly when `t + 1` is a multiple of the interval. -/
theorem Paced.due (h : r.Paced t) :
    r.tick.1 = true ↔ 0 < r.interval ∧ (t + 1) % r.interval = 0 := by
  rcases Nat.eq_zero_or_pos r.interval with hk | hk
  · simp [tick_of_zero hk, hk]
  · rw [tick_fst_of_pos hk, h.sinceLast, if_neg (Nat.pos_iff_ne_zero.1 hk), mod_succ_eq hk]
    have := Nat.mod_lt t hk
    constructor
    · intro hle
      exact ⟨hk, if_pos hle⟩
    · rintro ⟨-, hz⟩
      split at hz
      · assumption
      · omega

theorem Paced.idle (h : r.Paced t) (hdue : r.tick.1 = false) : r.tick.2.Paced (t + 1) := by
  rcases Nat.eq_zero_or_pos r.interval with hk | hk
  · rw [tick_of_zero hk]
    exact ⟨by rw [h.sinceLast]; simp [hk], by simp [hk, h.attempts], h.adopted⟩
  · have hnot : ¬ r.interval ≤ t % r.interval + 1 := by
      intro hle
      have := (h.due).2 ⟨hk, by rw [mod_succ_eq hk, if_pos hle]⟩
      rw [hdue] at this
      cases this
    rw [tick_of_pos hk]
    refine ⟨?_, ?_, h.adopted⟩
    · simp only [Nat.pos_iff_ne_zero.1 hk, ↓reduceIte, h.sinceLast]
      rw [mod_succ_eq hk, if_neg hnot]
    · simp only [h.attempts]
      rw [div_succ_eq hk, if_neg hnot, Nat.add_zero]

theorem Paced.offer (h : r.Paced t) (hdue : r.tick.1 = true) (s : S) (e : Float)
    (reg : Register S) :
    (r.tick.2.offer s e reg).2.1.Paced (t + 1) ∧
      (r.tick.2.offer s e reg).2.1.attempts = r.attempts + 1 ∧
      (r.tick.2.offer s e reg).2.1.interval = r.interval := by
  obtain ⟨hk, hz⟩ := h.due.1 hdue
  have hle : r.interval ≤ t % r.interval + 1 := by
    rw [mod_succ_eq hk] at hz
    split at hz
    · assumption
    · omega
  obtain ⟨hint, hsince, hatt, hadopt⟩ := offer_counts r.tick.2 s e reg
  rw [tick_interval] at hint
  rw [tick_attempts] at hatt
  rw [tick_adopted] at hadopt
  refine ⟨⟨?_, ?_, ?_⟩, hatt, hint⟩
  · rw [hsince, hint, if_neg (Nat.pos_iff_ne_zero.1 hk), hz]
  · rw [hatt, hint, h.attempts, div_succ_eq hk, if_pos hle]
  · rw [hatt, hadopt]
    have := h.adopted
    split <;> omega

end Restarter

/-! ## The restarts of a life -/

/-- The iterations after which the steps `T` restarted: those whose step drew a fresh
solution. -/
def Worker.restartsAfter (cx : Setup σ ω S) (T : List (Shared σ ω S × Worker S)) : List Nat :=
  T.filterMap fun p => match p.2.phase with
    | .walking t _ =>
      if (Worker.problemCalls cx p.1 p.2).any ProblemCall.isRandomSolution then some t else none
    | .start | .finished .. | .failed _ => none

/-- The first `a` iterations after which a schedule of interval `k` restarts:
`k - 1, 2k - 1, …`. -/
def restartPoints (k a : Nat) : List Nat :=
  (List.range a).map fun j => (j + 1) * k - 1

/-- How many times a walk that ended with the report `st` was asked whether to restart: after
every iteration but the last when it ran its last iteration or its stop hook stopped it,
after every iteration when it stopped before an iteration. -/
def Stats.asked (st : Stats) : Nat :=
  match st.termination with
  | .maxIterations | .stopCondition => st.iterations - 1
  | .cancelled | .aborted => st.iterations

/-- What the steps `T` of a life say of the restarts of its walk `w` before iteration `t`. -/
structure Walk.RestartLog (cx : Setup σ ω S) (T : List (Shared σ ω S × Worker S)) (t : Nat)
    (w : Walk S) : Prop where
  lt : t < cx.config.maxIterations
  iterations : w.iterations = t
  interval : w.restarter.interval = cx.config.restartInterval
  paced : w.restarter.Paced t
  points : Worker.restartsAfter cx T = restartPoints w.restarter.interval w.restarter.attempts
  fresh : (Worker.problemLog cx T).countP ProblemCall.isRandomSolution = 1 + w.restarter.attempts
  energies : (Worker.problemLog cx T).countP ProblemCall.isEnergy = 1 + t + w.restarter.attempts

/-- What the steps `T` of a life say of the restarts of a worker that finished with the report
`st`. -/
structure Stats.RestartLog (cx : Setup σ ω S) (T : List (Shared σ ω S × Worker S)) (st : Stats) :
    Prop where
  restarts : st.restarts = st.asked / cx.config.restartInterval
  adopted : st.restartsAdopted ≤ st.restarts
  points : Worker.restartsAfter cx T = restartPoints cx.config.restartInterval st.restarts
  fresh : (Worker.problemLog cx T).countP ProblemCall.isRandomSolution = 1 + st.restarts
  energies : (Worker.problemLog cx T).countP ProblemCall.isEnergy = 1 + st.iterations + st.restarts

/-- What the steps `T` of a life say of the restarts of the worker `wk` they led to. -/
def Worker.RestartLog (cx : Setup σ ω S) (T : List (Shared σ ω S × Worker S)) (wk : Worker S) :
    Prop :=
  match wk.phase with
  | .start => Worker.problemLog cx T = [] ∧ Worker.restartsAfter cx T = []
  | .walking t w => Walk.RestartLog cx T t w
  | .finished _ st => Stats.RestartLog cx T st
  | .failed _ => True

section Log

variable {cx : Setup σ ω S} {T : List (Shared σ ω S × Worker S)} {sh : Shared σ ω S}
  {wk : Worker S}

theorem restartPoints_succ (k a : Nat) :
    restartPoints k (a + 1) = restartPoints k a ++ [(a + 1) * k - 1] := by
  simp [restartPoints, List.range_succ]

theorem restartsAfter_walking {t : Nat} {w : Walk S} (h : wk.phase = .walking t w) :
    Worker.restartsAfter cx (T ++ [(sh, wk)]) = Worker.restartsAfter cx T ++
      if (Worker.problemCalls cx sh wk).any ProblemCall.isRandomSolution then [t] else [] := by
  unfold Worker.restartsAfter
  rw [List.filterMap_append, List.filterMap_cons, List.filterMap_nil]
  dsimp only
  rw [h]
  by_cases hr : (Worker.problemCalls cx sh wk).any ProblemCall.isRandomSolution = true
  · simp only [hr, ↓reduceIte]
  · simp only [hr, Bool.false_eq_true, ↓reduceIte]

theorem restartsAfter_idle (h : ∀ t w, wk.phase ≠ .walking t w) :
    Worker.restartsAfter cx (T ++ [(sh, wk)]) = Worker.restartsAfter cx T := by
  obtain ⟨i, g, phase⟩ := wk
  unfold Worker.restartsAfter
  cases phase with
  | walking t w => exact absurd rfl (h t w)
  | _ => rw [List.filterMap_append, List.filterMap_cons_none rfl, List.filterMap_nil,
      List.append_nil]

/-- When `t + 1` is a multiple of `k`, it is the `(t / k + 1)`-th: the restart, or the
sample, after iteration `t` is the `(t / k + 1)`-th. -/
theorem periodic_point {t k : Nat} (hz : (t + 1) % k = 0) : (t / k + 1) * k - 1 = t := by
  have h₁ := Nat.div_add_mod (t + 1) k
  rw [hz, Nat.add_zero, Nat.succ_div_of_dvd (Nat.dvd_of_mod_eq_zero hz)] at h₁
  rw [Nat.mul_comm, h₁, Nat.add_sub_cancel]

/-- A step that calls nothing and leaves a finished worker keeps what its log says. -/
theorem Stats.RestartLog.quiet {st : Stats} (h : Stats.RestartLog cx T st)
    (hP : Worker.problemCalls cx sh wk = [])
    (hR : Worker.restartsAfter cx (T ++ [(sh, wk)]) = Worker.restartsAfter cx T) :
    Stats.RestartLog cx (T ++ [(sh, wk)]) st :=
  ⟨h.restarts, h.adopted, hR.trans h.points, by simp [hP, h.fresh], by simp [hP, h.energies]⟩

/-- The iteration after which the schedule is asked once more, and restarts when due. -/
theorem Walk.RestartLog.restarted {t : Nat} {w m w' : Walk S} (h : Walk.RestartLog cx T t w)
    (hm : Walk.Moved cx.config t w m) (hne : t + 1 ≠ cx.config.maxIterations)
    {P : List (ProblemCall S)} (hres : Walk.Restarted m w' P) {c : S} {v : Float}
    (hP : Worker.problemCalls cx sh wk = .neighbor w.current (.ok c) :: .energy c (.ok v) :: P)
    (hR : Worker.restartsAfter cx (T ++ [(sh, wk)]) = Worker.restartsAfter cx T ++
      if (Worker.problemCalls cx sh wk).any ProblemCall.isRandomSolution then [t] else []) :
    Walk.RestartLog cx (T ++ [(sh, wk)]) (t + 1) w' := by
  have hlt : t + 1 < cx.config.maxIterations := by
    have := h.lt
    omega
  have hit : w'.iterations = t + 1 := hres.iterations.trans hm.iterations
  have hsched := hres.schedule
  rw [hm.restarter] at hsched
  rcases hsched with ⟨hdue, hr, rfl⟩ | ⟨hdue, f, v', reg, hv', hr, rfl⟩
  · -- no restart is due: only the count moves
    refine ⟨hlt, hit, by rw [hr, Restarter.tick_interval, h.interval], hr ▸ h.paced.idle hdue,
      ?_, ?_, ?_⟩
    · rw [hR, hP, hr, Restarter.tick_interval, Restarter.tick_attempts, h.points]
      simp [ProblemCall.isRandomSolution]
    · have hc : [ProblemCall.neighbor w.current (.ok c), .energy c (.ok v)].countP
          ProblemCall.isRandomSolution = 0 := rfl
      rw [Worker.problemLog_append, Worker.problemLog_singleton, hP, List.countP_append, h.fresh,
        hc, hr, Restarter.tick_attempts, Nat.add_zero]
    · have hc : [ProblemCall.neighbor w.current (.ok c), .energy c (.ok v)].countP
          ProblemCall.isEnergy = 1 := rfl
      rw [Worker.problemLog_append, Worker.problemLog_singleton, hP, List.countP_append,
        h.energies, hc, hr, Restarter.tick_attempts]
      omega
  · -- a restart: a fresh solution and its energy, after iteration `t`
    obtain ⟨hpaced, hatt, hint⟩ := h.paced.offer hdue f v' reg
    obtain ⟨-, hz⟩ := h.paced.due.1 hdue
    refine ⟨hlt, hit, by rw [hr, hint, h.interval], hr ▸ hpaced, ?_, ?_, ?_⟩
    · rw [hR, hP, hr, hint, hatt, h.points, restartPoints_succ, h.paced.attempts,
        periodic_point hz]
      simp [ProblemCall.isRandomSolution]
    · have hc : [ProblemCall.neighbor w.current (.ok c), .energy c (.ok v),
          .randomSolution (.ok f), .energy f (.ok v')].countP ProblemCall.isRandomSolution = 1 :=
        rfl
      rw [Worker.problemLog_append, Worker.problemLog_singleton, hP, List.countP_append, h.fresh,
        hc, hr, hatt]
      omega
    · have hc : [ProblemCall.neighbor w.current (.ok c), .energy c (.ok v),
          .randomSolution (.ok f), .energy f (.ok v')].countP ProblemCall.isEnergy = 2 := rfl
      rw [Worker.problemLog_append, Worker.problemLog_singleton, hP, List.countP_append,
        h.energies, hc, hr, hatt]
      omega

/-- A walk stopped before iteration `t`, by the abort flag or the cancel token, was asked
`t` times. -/
theorem Walk.RestartLog.stopped {t i : Nat} {w : Walk S} (h : Walk.RestartLog cx T t w)
    {term : Termination} (hterm : term = .cancelled ∨ term = .aborted)
    (hP : Worker.problemCalls cx sh wk = [])
    (hR : Worker.restartsAfter cx (T ++ [(sh, wk)]) = Worker.restartsAfter cx T) :
    Stats.RestartLog cx (T ++ [(sh, wk)]) (w.stats cx.config i term) := by
  have hasked : (w.stats cx.config i term).asked = t := by
    rcases hterm with rfl | rfl <;> exact h.iterations
  refine ⟨?_, h.paced.adopted, ?_, ?_, ?_⟩
  · show w.restarter.attempts = _
    rw [hasked, h.paced.attempts, h.interval]
  · rw [hR, h.points, h.interval]
    rfl
  · simp [hP, h.fresh]
    rfl
  · simp [hP, h.energies, Walk.stats, h.iterations]

/-- An iteration that ran and ended the walk, on its stop hook or as the last one, asked
nothing after it. -/
theorem Walk.RestartLog.ended {t i : Nat} {w m : Walk S} (h : Walk.RestartLog cx T t w)
    (hm : Walk.Moved cx.config t w m) {term : Termination}
    (hterm : term = .maxIterations ∨ term = .stopCondition) {c : S} {v : Float}
    (hP : Worker.problemCalls cx sh wk = [.neighbor w.current (.ok c), .energy c (.ok v)])
    (hR : Worker.restartsAfter cx (T ++ [(sh, wk)]) = Worker.restartsAfter cx T) :
    Stats.RestartLog cx (T ++ [(sh, wk)]) (m.stats cx.config i term) := by
  have hasked : (m.stats cx.config i term).asked = t := by
    rcases hterm with rfl | rfl <;> simp only [Stats.asked, Walk.stats, hm.iterations,
      Nat.add_sub_cancel]
  refine ⟨?_, ?_, ?_, ?_, ?_⟩
  · show m.restarter.attempts = _
    rw [hasked, hm.restarter, h.paced.attempts, h.interval]
  · show m.restarter.adopted ≤ m.restarter.attempts
    rw [hm.restarter]
    exact h.paced.adopted
  · rw [hR, h.points, h.interval]
    show _ = restartPoints _ m.restarter.attempts
    rw [hm.restarter]
  · simp [hP, h.fresh, ProblemCall.isRandomSolution]
    show _ = m.restarter.attempts
    rw [hm.restarter]
  · simp only [Worker.problemLog_append, Worker.problemLog_singleton, hP, List.countP_append,
      h.energies]
    show _ = 1 + m.iterations + m.restarter.attempts
    rw [hm.iterations, hm.restarter]
    simp [ProblemCall.isEnergy]
    omega

/-- Every step that does not fail keeps what the log says of the restarts. -/
theorem Worker.RestartLog.step (hmax : 0 < cx.config.maxIterations)
    (h : Worker.RestartLog cx T wk) (hok : ∀ e, (Worker.step cx sh wk).2.phase ≠ .failed e) :
    Worker.RestartLog cx (T ++ [(sh, wk)]) (Worker.step cx sh wk).2 := by
  rcases Worker.step_cases hok with ⟨hdone, hstep⟩ |
      ⟨hstart, s, v, w, hv, hP, -, hphase, hfresh⟩ | ⟨t, w, hphase, hit⟩
  · -- a done worker: nothing changes
    have hP : Worker.problemCalls cx sh wk = [] := (Worker.calls_of_done hdone).1
    rw [hstep]
    obtain ⟨i, g, phase⟩ := wk
    cases phase with
    | start => cases hdone
    | walking t w => cases hdone
    | finished best st => exact Stats.RestartLog.quiet h hP (restartsAfter_idle nofun)
    | failed e => trivial
  · -- the start: one fresh solution and its energy
    unfold Worker.RestartLog at h ⊢
    rw [hstart] at h
    rw [hphase]
    obtain ⟨hlog, hpoints⟩ := h
    have hres := hfresh.restarter
    refine ⟨hmax, hfresh.iterations, by rw [hres]; rfl, hres ▸ Restarter.Paced.start _, ?_, ?_, ?_⟩
    · rw [restartsAfter_idle (by rw [hstart]; nofun), hpoints, hres]
      rfl
    · rw [Worker.problemLog_append, Worker.problemLog_singleton, hlog, hP, hres]
      rfl
    · rw [Worker.problemLog_append, Worker.problemLog_singleton, hlog, hP, hres]
      rfl
  · -- an iteration, by its exits
    unfold Worker.RestartLog at h ⊢
    rw [hphase] at h
    have hR : Worker.restartsAfter cx (T ++ [(sh, wk)]) = _ := restartsAfter_walking hphase
    generalize hP : Worker.problemCalls cx sh wk = P at hit hR
    generalize Worker.hookCalls cx sh wk = H at hit
    generalize (Worker.step cx sh wk).2.phase = p at hit ⊢
    cases hit with
    | spent hle => exact absurd h.lt (Nat.not_lt.2 hle)
    | aborted => exact h.stopped (.inr rfl) hP (by rw [hR]; simp)
    | cancelled => exact h.stopped (.inl rfl) hP (by rw [hR]; simp)
    | ran _ _ _ _ hm _ _ hend =>
        cases hend with
        | stopped =>
            exact h.ended hm (.inr rfl) hP (by rw [hR]; simp [ProblemCall.isRandomSolution])
        | last _ =>
            exact h.ended hm (.inl rfl) hP (by rw [hR]; simp [ProblemCall.isRandomSolution])
        | restarted hne hres => exact h.restarted hm hne hres hP (by rw [hP]; exact hR)

end Log

/-- What the whole life of a worker that finished says of its restarts. -/
theorem Worker.restartLog_of_life {cx : Setup σ ω S} (hc : cx.config.validate = .ok ())
    (i : Nat) (g : Random.Stream) (shs : List (Shared σ ω S)) {best : S} {st : Stats}
    (hfin : (Worker.after cx shs ⟨i, g, .start⟩).phase = .finished best st) :
    Stats.RestartLog cx (Worker.trace cx shs ⟨i, g, .start⟩) st := by
  have hmax := Config.maxIterations_pos hc
  have h₀ : Worker.RestartLog cx [] ⟨i, g, .start⟩ := ⟨rfl, rfl⟩
  have hlife := Worker.life_induction (Worker.RestartLog cx)
    (fun _ _ _ h hok => h.step hmax hok) shs h₀ (by rw [hfin]; nofun)
  unfold Worker.RestartLog at hlife
  rw [hfin, List.nil_append] at hlife
  exact hlife

/-- The laws of restarts. Under any questions and offers, a schedule of interval `k` never
asks for a restart when `k = 0`; otherwise it counts the questions since the last offer and
says yes once the count reaches `k`. It counts the offers, and the adoptions, which are the
offers the register takes: an offer returns the fresh solution exactly then, and the register
then holds it. A worker that finishes after `n` iterations, through any shared states, was
asked `n - 1` times if it ran its last iteration or was stopped by its hook, and `n` times if
it stopped before an iteration; it restarted after the iterations `k - 1, 2k - 1, …`, as
often as the interval fits into that count, adopting at most that many fresh solutions, and
asked the problem for one random solution more than it restarted and for one energy for each
of its solutions and iterations. -/
theorem Worker.restarts_follow_schedule (k : Nat) (cs : List (Restarter.Call S))
    (cx : Setup σ ω S) (hc : cx.config.validate = .ok ()) (i : Nat) (g : Random.Stream)
    (shs : List (Shared σ ω S)) {best : S} {st : Stats}
    (hfin : (Worker.after cx shs ⟨i, g, .start⟩).phase = .finished best st) :
    ((k = 0 → ((Restarter.start k).run cs).sinceLast = 0 ∧
        ((Restarter.start k).run cs).tick.1 = false) ∧
      (0 < k → ((Restarter.start k).run cs).sinceLast = Restarter.ticksSince cs ∧
        (((Restarter.start k).run cs).tick.1 = true ↔ k ≤ Restarter.ticksSince cs + 1)) ∧
      ((Restarter.start k).run cs).attempts = cs.countP Restarter.Call.isOffer ∧
      ((Restarter.start k).run cs).adopted = cs.countP Restarter.Call.taken) ∧
    (∀ (r : Restarter) (s : S) (e : Float) (reg : Register S),
      ((r.offer s e reg).1 = some (s, e) ↔ (reg.offer e s).1 = true) ∧
      ((r.offer s e reg).1 = none ↔ (reg.offer e s).1 = false) ∧
      (r.offer s e reg).2.2 = (reg.offer e s).2 ∧
      ((reg.offer e s).1 = true → (reg.offer e s).2.best = some (s, e))) ∧
    st.restarts = (if cx.config.restartInterval = 0 then 0 else
      (if st.termination = .maxIterations ∨ st.termination = .stopCondition then
        st.iterations - 1 else st.iterations) / cx.config.restartInterval) ∧
    Worker.restartsAfter cx (Worker.trace cx shs ⟨i, g, .start⟩) =
      (List.range st.restarts).map (fun j => (j + 1) * cx.config.restartInterval - 1) ∧
    st.restartsAdopted ≤ st.restarts ∧
    (Worker.problemLog cx (Worker.trace cx shs ⟨i, g, .start⟩)).countP
      ProblemCall.isRandomSolution = 1 + st.restarts ∧
    (Worker.problemLog cx (Worker.trace cx shs ⟨i, g, .start⟩)).countP
      ProblemCall.isEnergy = 1 + st.iterations + st.restarts := by
  have hlog := Worker.restartLog_of_life hc i g shs hfin
  refine ⟨⟨fun hk => ?_, fun hk => ?_, (Restarter.run_counts k cs).1,
    (Restarter.run_counts k cs).2⟩, fun r s e reg => ?_, ?_, hlog.points, hlog.adopted,
    hlog.fresh, hlog.energies⟩
  · -- no interval: no count, and never a restart
    subst hk
    exact ⟨by rw [Restarter.run_sinceLast, if_pos rfl],
      by rw [Restarter.tick_of_zero (Restarter.run_interval 0 cs)]⟩
  · have hsince := Restarter.run_sinceLast k cs
    rw [if_neg (Nat.pos_iff_ne_zero.1 hk)] at hsince
    refine ⟨hsince, ?_⟩
    rw [Restarter.tick_fst_of_pos (by rw [Restarter.run_interval]; exact hk),
      Restarter.run_interval, hsince]
  · -- an offer is adopted exactly when the register takes it
    rw [Restarter.offer_adopted]
    refine ⟨?_, ?_, Restarter.offer_register r s e reg, Register.offer_holds⟩
    · cases (reg.offer e s).1 <;> simp
    · cases (reg.offer e s).1 <;> simp
  · rw [hlog.restarts]
    split
    · next hk => rw [hk, Nat.div_zero]
    · unfold Stats.asked
      cases st.termination <;> simp

/-- A walk of three iterations on a single solution of energy zero, asked after every
iteration whether to restart. -/
def Setup.restartEvery : Setup Unit Unit Unit where
  config := { maxIterations := 3, restartInterval := 1 }
  problem :=
    { randomSolution := pure (), energy := fun _ => pure 0.0, neighbor := fun _ => pure () }
  observer := {}
  watchCancel := false
  status := ⟨true, 1⟩

/-- Its worker, stepping four times from an empty register, runs its three iterations and
restarts after the first two, drawing six energies. -/
theorem Setup.restartEvery_restarts :
    ∃ best st, (Worker.after Setup.restartEvery
        (List.replicate 4 { register := Register.empty, problem := (), observer := () })
        ⟨0, Random.Stream.ofSeed 0 0, .start⟩).phase = .finished best st ∧
      st.restarts = 2 ∧
      Worker.restartsAfter Setup.restartEvery (Worker.trace Setup.restartEvery
        (List.replicate 4 { register := Register.empty, problem := (), observer := () })
        ⟨0, Random.Stream.ofSeed 0 0, .start⟩) = [0, 1] ∧
      (Worker.problemLog Setup.restartEvery (Worker.trace Setup.restartEvery
        (List.replicate 4 { register := Register.empty, problem := (), observer := () })
        ⟨0, Random.Stream.ofSeed 0 0, .start⟩)).countP ProblemCall.isEnergy = 6 := by
  obtain ⟨best, st, hfin⟩ : ∃ best st, (Worker.after Setup.restartEvery
      (List.replicate 4 { register := Register.empty, problem := (), observer := () })
      ⟨0, Random.Stream.ofSeed 0 0, .start⟩).phase = .finished best st := ⟨_, _, rfl⟩
  obtain ⟨-, -, hrestarts, hpoints, -, -, henergy⟩ :=
    Worker.restarts_follow_schedule 0 [] Setup.restartEvery rfl 0 (Random.Stream.ofSeed 0 0)
      (List.replicate 4 { register := Register.empty, problem := (), observer := () }) hfin
  -- the run's report: three iterations, up to the last
  have hst : ((Worker.after Setup.restartEvery
      (List.replicate 4 { register := Register.empty, problem := (), observer := () })
      ⟨0, Random.Stream.ofSeed 0 0, .start⟩).outcome.toOption.map
        fun r => (r.2.iterations, r.2.termination)) = some (3, .maxIterations) := rfl
  rw [Worker.outcome_of_finished hfin] at hst
  injection hst with hst
  obtain ⟨hit, hterm⟩ := Prod.mk.inj hst
  have h₂ : st.restarts = 2 := by
    rw [hrestarts, hit, hterm]
    rfl
  exact ⟨best, st, hfin, h₂, by rw [hpoints, h₂]; rfl, by rw [henergy, hit, h₂]⟩

end Annealing
