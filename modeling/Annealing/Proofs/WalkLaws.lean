import Annealing.Proofs.Restarts

/-!
# The laws of a walk

What a worker that finished reports, set against what it did. Through any shared states, a
worker that finishes after `n` iterations ran at most `maxIterations` of them and drew one
neighbour in each; its hooks were shown the iterations `0, …, n - 1` in order, each with the
current solution its move reached; it counts at most as many improving moves as accepted
ones, and at most as many accepted moves as iterations; its samples of the best energy are
the local best after every `historyInterval`-th iteration; and the reason it gives for
stopping is the check that stopped it, in the order the iteration makes them.

The iterations that ran are described once (`Ran`), with the walks they reached; a walk before
an iteration adds the checks that let every earlier iteration run and the stop hook's answers
(`Walk.Lived`), and a finished worker the exit it took (`Stats.Exited`). Each exit of
`Iterated` keeps these, and an induction over the life (`Worker.life_induction`) carries them
to the end.
-/

namespace Annealing

variable {σ ω S : Type}

/-! ## What the hooks were shown -/

/-- The iteration, energy and solution a progress call was shown. -/
def HookCall.progressSeen : HookCall S → Option (Nat × Float × S)
  | .progress it e s _ => some (it, e, s)
  | .stop .. => none

/-- The iteration, energy and solution a stop call was shown. -/
def HookCall.stopSeen : HookCall S → Option (Nat × Float × S)
  | .stop it e s _ => some (it, e, s)
  | .progress .. => none

/-- What the stop hook answered, when it answered. -/
def HookCall.stopAnswer : HookCall S → Option Bool
  | .stop _ _ _ (.ok b) => some b
  | .stop _ _ _ (.error _) | .progress .. => none

/-- What the hooks are shown of the walk `m` that iteration `t` reached. -/
def Walk.seen (t : Nat) (m : Walk S) : Nat × Float × S :=
  (t, m.currentEnergy, m.current)

section Hooks

variable (cx : Setup σ ω S) (t : Nat) (m : Walk S) (b : Bool)

theorem hooksAt_progressSeen : (cx.hooksAt t m b).filterMap HookCall.progressSeen =
    if cx.observer.progress.isSome then [Walk.seen t m] else [] := by
  unfold Setup.hooksAt
  split <;> split <;> rfl

theorem hooksAt_stopSeen : (cx.hooksAt t m b).filterMap HookCall.stopSeen =
    if cx.observer.stop.isSome then [Walk.seen t m] else [] := by
  unfold Setup.hooksAt
  split <;> split <;> rfl

theorem hooksAt_stopAnswer : (cx.hooksAt t m b).filterMap HookCall.stopAnswer =
    if cx.observer.stop.isSome then [b] else [] := by
  unfold Setup.hooksAt
  split <;> split <;> rfl

end Hooks

/-! ## Samples of the best energy -/

/-- A sample taken before iteration `t` is of an iteration before `t`. -/
theorem sample_index_lt {k t h : Nat} (hk : k < t / h) : (k + 1) * h - 1 < t := by
  have hpos : 0 < h := by
    rcases Nat.eq_zero_or_pos h with rfl | hpos
    · simp at hk
    · exact hpos
  have hle : (k + 1) * h ≤ t := (Nat.le_div_iff_mul_le hpos).1 hk
  have hone : 1 ≤ (k + 1) * h := Nat.mul_pos (Nat.succ_pos k) hpos
  omega

/-- The samples after iteration `t`: one more exactly when `t + 1` is a multiple of the
interval. -/
theorem samples_succ {t h : Nat} :
    (t + 1) / h = t / h + if 0 < h ∧ (t + 1) % h = 0 then 1 else 0 := by
  rcases Nat.eq_zero_or_pos h with rfl | hpos
  · simp
  · rw [div_succ_eq hpos, mod_succ_eq hpos]
    by_cases hle : h ≤ t % h + 1
    · simp [hle, hpos]
    · simp [hle]

/-! ## The iterations that ran -/

/-- What the steps `T` of a life say of its first `r` iterations: they reached the walks `ms`,
one each, and the hooks were shown those walks in order; each drew one neighbour; the best
energy was sampled into `hist` after every `historyInterval`-th of them; and they counted
`acc` accepted moves, `imp` of them improving. -/
structure Ran (cx : Setup σ ω S) (T : List (Shared σ ω S × Worker S)) (r : Nat)
    (ms : List (Walk S)) (hist : Array Float) (acc imp : Nat) : Prop where
  length : ms.length = r
  reached : ∀ k m, ms[k]? = some m → ∃ p ∈ T, ∃ w y, p.2.phase = .walking k w ∧
    Turn.moveKeep cx p.2.index k w (p.1, p.2.stream) = .ok m y
  neighbors : (Worker.problemLog cx T).countP ProblemCall.isNeighbor = r
  progress : (Worker.hookLog cx T).filterMap HookCall.progressSeen =
    if cx.observer.progress.isSome then ms.mapIdx Walk.seen else []
  stops : (Worker.hookLog cx T).filterMap HookCall.stopSeen =
    if cx.observer.stop.isSome then ms.mapIdx Walk.seen else []
  moves : imp ≤ acc ∧ acc ≤ r
  samples : hist.size = r / cx.config.historyInterval
  sampled : ∀ k, k < hist.size →
    (ms[(k + 1) * cx.config.historyInterval - 1]?).map Walk.bestEnergy = hist[k]?

namespace Ran

variable {cx : Setup σ ω S} {T : List (Shared σ ω S × Worker S)} {r : Nat}
  {ms : List (Walk S)} {hist : Array Float} {acc imp : Nat}

theorem empty (cx : Setup σ ω S) : Ran cx [] 0 [] #[] 0 0 where
  length := rfl
  reached k m h := by simp at h
  neighbors := rfl
  progress := by split <;> rfl
  stops := by split <;> rfl
  moves := ⟨le_refl _, le_refl _⟩
  samples := by simp
  sampled k hk := absurd hk (Nat.not_lt_zero k)

/-- A step that draws no neighbour and calls no hook keeps what the iterations that ran say. -/
theorem quiet (h : Ran cx T r ms hist acc imp) {sh : Shared σ ω S} {wk : Worker S}
    (hP : (Worker.problemCalls cx sh wk).countP ProblemCall.isNeighbor = 0)
    (hH : Worker.hookCalls cx sh wk = []) :
    Ran cx (T ++ [(sh, wk)]) r ms hist acc imp where
  length := h.length
  reached k m hk := by
    obtain ⟨p, hp, rest⟩ := h.reached k m hk
    exact ⟨p, List.mem_append_left _ hp, rest⟩
  neighbors := by simp [List.countP_append, hP, h.neighbors]
  progress := by simp [hH, h.progress]
  stops := by simp [hH, h.stops]
  moves := h.moves
  samples := h.samples
  sampled := h.sampled

/-- Iteration `t`, run from the walk `w` to the walk `m`, is one more that ran: its walk is
shown to the hooks, its neighbour counted, and its best energy sampled when due. -/
theorem step {t : Nat} {w m : Walk S} (h : Ran cx T t ms w.history w.accepted w.improving)
    (hm : Walk.Moved cx.config t w m) {sh : Shared σ ω S} {wk : Worker S}
    (hphase : wk.phase = .walking t w) {y : Shared σ ω S × Random.Stream}
    (hmk : Turn.moveKeep cx wk.index t w (sh, wk.stream) = .ok m y) {c : S} {v : Float}
    {P : List (ProblemCall S)}
    (hP : Worker.problemCalls cx sh wk = .neighbor w.current (.ok c) :: .energy c (.ok v) :: P)
    (hPn : P.countP ProblemCall.isNeighbor = 0) {b : Bool}
    (hH : Worker.hookCalls cx sh wk = cx.hooksAt t m b) :
    Ran cx (T ++ [(sh, wk)]) (t + 1) (ms ++ [m]) m.history m.accepted m.improving where
  length := by simp [h.length]
  reached k m' hk := by
    rw [List.getElem?_append] at hk
    split at hk
    · obtain ⟨p, hp, rest⟩ := h.reached k m' hk
      exact ⟨p, List.mem_append_left _ hp, rest⟩
    · -- the one new walk is this iteration's
      next hge =>
        obtain ⟨hzero, rfl⟩ : k - ms.length = 0 ∧ m = m' := by
          simpa [List.getElem?_singleton] using hk
        have hkt : k = t := by
          have := h.length
          omega
        subst hkt
        exact ⟨(sh, wk), List.mem_append_right _ (List.mem_singleton_self _), w, y, hphase, hmk⟩
  neighbors := by
    simp only [Worker.problemLog_append, Worker.problemLog_singleton, hP, List.countP_append,
      h.neighbors, List.countP_cons, hPn]
    rfl
  progress := by
    rw [Worker.hookLog_append, Worker.hookLog_singleton, hH, List.filterMap_append, h.progress,
      hooksAt_progressSeen, List.mapIdx_append, List.mapIdx_singleton, h.length, Nat.zero_add]
    split <;> rfl
  stops := by
    rw [Worker.hookLog_append, Worker.hookLog_singleton, hH, List.filterMap_append, h.stops,
      hooksAt_stopSeen, List.mapIdx_append, List.mapIdx_singleton, h.length, Nat.zero_add]
    split <;> rfl
  moves := by
    have := h.moves
    rcases hm.moves with ⟨hacc, himp⟩ | ⟨hacc, himp⟩ <;> omega
  samples := by
    rw [hm.history, samples_succ]
    split
    · rw [Array.size_push, h.samples]
    · rw [h.samples, Nat.add_zero]
  sampled k hk := by
    have hidx : ∀ k, k < w.history.size →
        (ms ++ [m])[(k + 1) * cx.config.historyInterval - 1]? =
          ms[(k + 1) * cx.config.historyInterval - 1]? := by
      intro k hk
      rw [h.samples] at hk
      exact List.getElem?_append_left (h.length ▸ sample_index_lt hk)
    by_cases hdue : 0 < cx.config.historyInterval ∧ (t + 1) % cx.config.historyInterval = 0
    · have hh : m.history = w.history.push m.bestEnergy := by rw [hm.history, if_pos hdue]
      rw [hh] at hk ⊢
      rw [Array.getElem?_push]
      split
      · -- the new sample is of this iteration
        next hks =>
          rw [hks, h.samples, periodic_point hdue.2, ← h.length, List.getElem?_concat_length]
          rfl
      · next hks =>
          have hlt : k < w.history.size := by
            rw [Array.size_push] at hk
            omega
          rw [hidx k hlt]
          exact h.sampled k hlt
    · have hh : m.history = w.history := by rw [hm.history, if_neg hdue]
      rw [hh] at hk ⊢
      rw [hidx k hk]
      exact h.sampled k hk

end Ran

/-! ## The checks before an iteration -/

/-- The checks before an iteration let it run from the shared state `sh`: the abort flag is
down, and the cancel token is not watched or not set. -/
def Setup.Admits (cx : Setup σ ω S) (sh : Shared σ ω S) : Prop :=
  sh.abort = false ∧ (cx.watchCancel && cx.observer.cancelRequested sh.observer) = false

/-- Every iteration among the steps `T` came before iteration `n` and passed the checks. -/
def Setup.AdmittedBefore (cx : Setup σ ω S) (T : List (Shared σ ω S × Worker S)) (n : Nat) :
    Prop :=
  ∀ p ∈ T, ∀ k w, p.2.phase = .walking k w → k < n ∧ cx.Admits p.1

/-- What the steps `T` of a life say of its walk `w` before iteration `t`, the iterations
before it having reached the walks `ms`: each of them passed the checks, and the stop hook,
if any, answered no to each. -/
structure Walk.Lived (cx : Setup σ ω S) (T : List (Shared σ ω S × Worker S)) (t : Nat)
    (w : Walk S) (ms : List (Walk S)) : Prop where
  ran : Ran cx T t ms w.history w.accepted w.improving
  lt : t < cx.config.maxIterations
  iterations : w.iterations = t
  admitted : cx.AdmittedBefore T t
  answers : (Worker.hookLog cx T).filterMap HookCall.stopAnswer =
    if cx.observer.stop.isSome then List.replicate t false else []

/-- How a walk of `n` iterations, with the steps `T`, ended for the reason it gives: the stop
hook answered yes after the last iteration, having answered no before; or the last iteration
ran and the hook never answered yes; or the abort flag, or else the watched cancel token, was
found set before iteration `n`, every earlier iteration having passed the checks. -/
inductive Stats.Exited (cx : Setup σ ω S) (T : List (Shared σ ω S × Worker S)) (n : Nat) :
    Termination → Prop
  | stopCondition : 0 < n → cx.observer.stop.isSome = true →
      (Worker.hookLog cx T).filterMap HookCall.stopAnswer =
        List.replicate (n - 1) false ++ [true] →
      cx.AdmittedBefore T n → Stats.Exited cx T n .stopCondition
  | maxIterations : n = cx.config.maxIterations →
      (Worker.hookLog cx T).filterMap HookCall.stopAnswer =
        (if cx.observer.stop.isSome then List.replicate n false else []) →
      cx.AdmittedBefore T n → Stats.Exited cx T n .maxIterations
  | aborted : n < cx.config.maxIterations →
      (Worker.hookLog cx T).filterMap HookCall.stopAnswer =
        (if cx.observer.stop.isSome then List.replicate n false else []) →
      (∀ p ∈ T, ∀ k w, p.2.phase = .walking k w →
        k < n ∧ cx.Admits p.1 ∨ k = n ∧ p.1.abort = true) →
      (∃ p ∈ T, ∃ w, p.2.phase = .walking n w ∧ p.1.abort = true) →
      Stats.Exited cx T n .aborted
  | cancelled : n < cx.config.maxIterations →
      (Worker.hookLog cx T).filterMap HookCall.stopAnswer =
        (if cx.observer.stop.isSome then List.replicate n false else []) →
      (∀ p ∈ T, ∀ k w, p.2.phase = .walking k w → k < n ∧ cx.Admits p.1 ∨
        k = n ∧ p.1.abort = false ∧ cx.watchCancel = true ∧
          cx.observer.cancelRequested p.1.observer = true) →
      (∃ p ∈ T, ∃ w, p.2.phase = .walking n w ∧ p.1.abort = false ∧ cx.watchCancel = true ∧
        cx.observer.cancelRequested p.1.observer = true) →
      Stats.Exited cx T n .cancelled

/-- What the steps `T` of a life say of a worker that finished with the report `st`, its
iterations having reached the walks `ms`. -/
structure Stats.Lived (cx : Setup σ ω S) (T : List (Shared σ ω S × Worker S)) (st : Stats)
    (ms : List (Walk S)) : Prop where
  ran : Ran cx T st.iterations ms st.bestHistory st.acceptedMoves st.improvingMoves
  le : st.iterations ≤ cx.config.maxIterations
  exited : Stats.Exited cx T st.iterations st.termination

/-- What the steps `T` of a life say of the worker `wk` they led to. -/
def Worker.Lived (cx : Setup σ ω S) (T : List (Shared σ ω S × Worker S)) (wk : Worker S) :
    Prop :=
  match wk.phase with
  | .start => T = []
  | .walking t w => ∃ ms, Walk.Lived cx T t w ms
  | .finished _ st => ∃ ms, Stats.Lived cx T st ms
  | .failed _ => True

/-! ## Each step keeps them -/

section Steps

variable {cx : Setup σ ω S} {T : List (Shared σ ω S × Worker S)} {sh : Shared σ ω S}
  {wk : Worker S}

theorem Setup.AdmittedBefore.later {n : Nat} (h : cx.AdmittedBefore T n)
    (hidle : ∀ k w, wk.phase ≠ .walking k w) : cx.AdmittedBefore (T ++ [(sh, wk)]) n := by
  intro p hp k w hk
  rcases List.mem_append.1 hp with hp | hp
  · exact h p hp k w hk
  · rw [List.mem_singleton.1 hp] at hk
    exact absurd hk (hidle k w)

/-- The stop hook's answers after a step that calls no hook. -/
theorem stopAnswers_quiet (hH : Worker.hookCalls cx sh wk = []) :
    (Worker.hookLog cx (T ++ [(sh, wk)])).filterMap HookCall.stopAnswer =
      (Worker.hookLog cx T).filterMap HookCall.stopAnswer := by
  simp [hH]

/-- A step of a done worker keeps the exit it took. -/
theorem Stats.Exited.quiet {n : Nat} {term : Termination} (h : Stats.Exited cx T n term)
    (hH : Worker.hookCalls cx sh wk = []) (hidle : ∀ k w, wk.phase ≠ .walking k w) :
    Stats.Exited cx (T ++ [(sh, wk)]) n term := by
  have hlater : ∀ p ∈ T ++ [(sh, wk)], ∀ k w, p.2.phase = .walking k w → p ∈ T := by
    intro p hp k w hk
    rcases List.mem_append.1 hp with hp | hp
    · exact hp
    · rw [List.mem_singleton.1 hp] at hk
      exact absurd hk (hidle k w)
  cases h with
  | stopCondition h₁ h₂ h₃ h₄ =>
      exact .stopCondition h₁ h₂ (by rw [stopAnswers_quiet hH]; exact h₃) (h₄.later hidle)
  | maxIterations h₁ h₂ h₃ =>
      exact .maxIterations h₁ (by rw [stopAnswers_quiet hH]; exact h₂) (h₃.later hidle)
  | aborted h₁ h₂ h₃ h₄ =>
      obtain ⟨p, hp, rest⟩ := h₄
      exact .aborted h₁ (by rw [stopAnswers_quiet hH]; exact h₂)
        (fun p hp k w hk => h₃ p (hlater p hp k w hk) k w hk)
        ⟨p, List.mem_append_left _ hp, rest⟩
  | cancelled h₁ h₂ h₃ h₄ =>
      obtain ⟨p, hp, rest⟩ := h₄
      exact .cancelled h₁ (by rw [stopAnswers_quiet hH]; exact h₂)
        (fun p hp k w hk => h₃ p (hlater p hp k w hk) k w hk)
        ⟨p, List.mem_append_left _ hp, rest⟩

/-- Stopped before iteration `t` for a reason `Q` of the shared state, a walk has let every
earlier iteration run, and this one not. -/
theorem Walk.Lived.checks {t : Nat} {w : Walk S} {ms : List (Walk S)}
    (h : Walk.Lived cx T t w ms) (hphase : wk.phase = .walking t w)
    (Q : Shared σ ω S → Prop) (hq : Q sh) :
    ∀ p ∈ T ++ [(sh, wk)], ∀ k w', p.2.phase = .walking k w' →
      k < t ∧ cx.Admits p.1 ∨ k = t ∧ Q p.1 := by
  intro p hp k w' hk
  rcases List.mem_append.1 hp with hp | hp
  · exact .inl (h.admitted p hp k w' hk)
  · rw [List.mem_singleton.1 hp] at hk ⊢
    rw [hphase] at hk
    cases hk
    exact .inr ⟨rfl, hq⟩

/-- A walk stopped before iteration `t` by the abort flag finishes with `t` iterations. -/
theorem Walk.Lived.aborted {t : Nat} {w : Walk S} {ms : List (Walk S)}
    (h : Walk.Lived cx T t w ms) (hphase : wk.phase = .walking t w) (habort : sh.abort = true)
    (hP : Worker.problemCalls cx sh wk = []) (hH : Worker.hookCalls cx sh wk = []) (i : Nat) :
    Stats.Lived cx (T ++ [(sh, wk)]) (w.stats cx.config i .aborted) ms := by
  have hn : (w.stats cx.config i .aborted).iterations = t := h.iterations
  refine ⟨?_, ?_, ?_⟩
  · rw [hn]
    exact h.ran.quiet (by rw [hP]; rfl) hH
  · rw [hn]
    exact h.lt.le
  · rw [hn]
    exact .aborted h.lt (by rw [stopAnswers_quiet hH]; exact h.answers)
      (h.checks hphase (fun sh => sh.abort = true) habort)
      ⟨(sh, wk), List.mem_append_right _ (List.mem_singleton_self _), w, hphase, habort⟩

/-- A walk stopped before iteration `t` by the watched cancel token, the abort flag being
down, finishes with `t` iterations. -/
theorem Walk.Lived.cancelled {t : Nat} {w : Walk S} {ms : List (Walk S)}
    (h : Walk.Lived cx T t w ms) (hphase : wk.phase = .walking t w)
    (hcancel : sh.abort = false ∧ cx.watchCancel = true ∧
      cx.observer.cancelRequested sh.observer = true)
    (hP : Worker.problemCalls cx sh wk = []) (hH : Worker.hookCalls cx sh wk = []) (i : Nat) :
    Stats.Lived cx (T ++ [(sh, wk)]) (w.stats cx.config i .cancelled) ms := by
  have hn : (w.stats cx.config i .cancelled).iterations = t := h.iterations
  refine ⟨?_, ?_, ?_⟩
  · rw [hn]
    exact h.ran.quiet (by rw [hP]; rfl) hH
  · rw [hn]
    exact h.lt.le
  · rw [hn]
    exact .cancelled h.lt (by rw [stopAnswers_quiet hH]; exact h.answers)
      (h.checks hphase (fun sh => sh.abort = false ∧ cx.watchCancel = true ∧
        cx.observer.cancelRequested sh.observer = true) hcancel)
      ⟨(sh, wk), List.mem_append_right _ (List.mem_singleton_self _), w, hphase, hcancel⟩

/-- Iteration `t`, admitted by the checks and run to the walk `m`, is one more that ran and
passed the checks, and adds its stop hook's answer. -/
theorem Walk.Lived.moved {t : Nat} {w m : Walk S} {ms : List (Walk S)}
    (h : Walk.Lived cx T t w ms) (hphase : wk.phase = .walking t w) (hadm : cx.Admits sh)
    {y : Shared σ ω S × Random.Stream}
    (hmk : Turn.moveKeep cx wk.index t w (sh, wk.stream) = .ok m y)
    (hm : Walk.Moved cx.config t w m) {c : S} {v : Float} {P : List (ProblemCall S)}
    (hP : Worker.problemCalls cx sh wk = .neighbor w.current (.ok c) :: .energy c (.ok v) :: P)
    (hPn : P.countP ProblemCall.isNeighbor = 0) {b : Bool}
    (hH : Worker.hookCalls cx sh wk = cx.hooksAt t m b) :
    Ran cx (T ++ [(sh, wk)]) (t + 1) (ms ++ [m]) m.history m.accepted m.improving ∧
      cx.AdmittedBefore (T ++ [(sh, wk)]) (t + 1) ∧
      (Worker.hookLog cx (T ++ [(sh, wk)])).filterMap HookCall.stopAnswer =
        if cx.observer.stop.isSome then List.replicate t false ++ [b] else [] := by
  refine ⟨h.ran.step hm hphase hmk hP hPn hH, ?_, ?_⟩
  · intro p hp k w' hk
    rcases List.mem_append.1 hp with hp | hp
    · obtain ⟨hlt, hadm'⟩ := h.admitted p hp k w' hk
      exact ⟨Nat.lt_succ_of_lt hlt, hadm'⟩
    · rw [List.mem_singleton.1 hp] at hk ⊢
      rw [hphase] at hk
      cases hk
      exact ⟨Nat.lt_succ_self _, hadm⟩
  · rw [Worker.hookLog_append, Worker.hookLog_singleton, hH, List.filterMap_append, h.answers,
      hooksAt_stopAnswer]
    split <;> rfl

/-- Every step that does not fail keeps what the log says of the walk. -/
theorem Worker.Lived.step (hmax : 0 < cx.config.maxIterations) (h : Worker.Lived cx T wk)
    (hok : ∀ e, (Worker.step cx sh wk).2.phase ≠ .failed e) :
    Worker.Lived cx (T ++ [(sh, wk)]) (Worker.step cx sh wk).2 := by
  rcases Worker.step_cases hok with ⟨hdone, hstep⟩ |
      ⟨hstart, s, v, w, hv, hP, hH, hphase, hfresh⟩ | ⟨t, w, hphase, hit⟩
  · -- a done worker: nothing changes
    have hcalls : Worker.problemCalls cx sh wk = [] ∧ Worker.hookCalls cx sh wk = [] :=
      Worker.calls_of_done hdone
    rw [hstep]
    obtain ⟨i, g, phase⟩ := wk
    cases phase with
    | start => cases hdone
    | walking t w => cases hdone
    | finished best st =>
        obtain ⟨ms, hl⟩ := h
        exact ⟨ms, hl.ran.quiet (by rw [hcalls.1]; rfl) hcalls.2, hl.le,
          hl.exited.quiet hcalls.2 nofun⟩
    | failed e => trivial
  · -- the start: a fresh walk, before any iteration
    unfold Worker.Lived at h ⊢
    rw [hstart] at h
    rw [hphase]
    subst h
    have hran : Ran cx ([] ++ [(sh, wk)]) 0 [] #[] 0 0 :=
      (Ran.empty cx).quiet (by rw [hP]; rfl) hH
    refine ⟨[], ⟨?_, hmax, hfresh.iterations, ?_, ?_⟩⟩
    · rw [hfresh.history, hfresh.accepted, hfresh.improving]
      exact hran
    · intro p hp k w' hk
      rw [List.nil_append, List.mem_singleton] at hp
      subst hp
      rw [hstart] at hk
      cases hk
    · rw [Worker.hookLog_append, Worker.hookLog_singleton, hH]
      split <;> rfl
  · -- an iteration, by its exits
    unfold Worker.Lived at h ⊢
    rw [hphase] at h
    obtain ⟨ms, hl⟩ := h
    generalize hP : Worker.problemCalls cx sh wk = P at hit
    generalize hH : Worker.hookCalls cx sh wk = H at hit
    generalize (Worker.step cx sh wk).2.phase = p at hit ⊢
    cases hit with
    | spent hle => exact absurd hl.lt (Nat.not_lt.2 hle)
    | aborted _ habort => exact ⟨ms, hl.aborted hphase habort hP hH _⟩
    | cancelled _ habort hwatch hreq =>
        exact ⟨ms, hl.cancelled hphase ⟨habort, hwatch, hreq⟩ hP hH _⟩
    | @ran m y c v b P' p _ habort hcancel hmk hm _ hstop hend =>
        have hadm : cx.Admits sh := ⟨habort, hcancel⟩
        cases hend with
        | stopped =>
            obtain ⟨hran, hadmitted, hanswers⟩ := hl.moved hphase hadm hmk hm hP rfl hH
            have hn : (m.stats cx.config wk.index .stopCondition).iterations = t + 1 :=
              hm.iterations
            have hsome : cx.observer.stop.isSome = true := by
              cases hs : cx.observer.stop.isSome
              · exact absurd (hstop hs) (by decide)
              · rfl
            refine ⟨ms ++ [m], ?_, ?_, ?_⟩
            · rw [hn]
              exact hran
            · rw [hn]
              exact hl.lt
            · rw [hn]
              exact .stopCondition (Nat.succ_pos t) hsome
                (by rw [hanswers, if_pos hsome, Nat.add_sub_cancel]) hadmitted
        | last hlast =>
            obtain ⟨hran, hadmitted, hanswers⟩ := hl.moved hphase hadm hmk hm hP rfl hH
            have hn : (m.stats cx.config wk.index .maxIterations).iterations = t + 1 :=
              hm.iterations
            refine ⟨ms ++ [m], ?_, ?_, ?_⟩
            · rw [hn]
              exact hran
            · rw [hn, hlast]
            · rw [hn]
              exact .maxIterations hlast (by rw [hanswers, List.replicate_succ']) hadmitted
        | restarted hne hres =>
            -- the restart draws no neighbour
            have hPn : P'.countP ProblemCall.isNeighbor = 0 := by
              rcases hres.schedule with ⟨-, -, rfl⟩ | ⟨-, f, v', reg, -, -, rfl⟩ <;> rfl
            obtain ⟨hran, hadmitted, hanswers⟩ := hl.moved hphase hadm hmk hm hP hPn hH
            refine ⟨ms ++ [m], ⟨?_, ?_, hres.iterations.trans hm.iterations, hadmitted, ?_⟩⟩
            · rw [hres.history, hres.accepted, hres.improving]
              exact hran
            · have := hl.lt
              omega
            · rw [hanswers, List.replicate_succ']

end Steps

/-! ## The laws of a finished walk -/

section Laws

variable {cx : Setup σ ω S} {T : List (Shared σ ω S × Worker S)}

/-- Iterations that all came before `n` include none at `n`. -/
theorem Setup.AdmittedBefore.not_at {n : Nat} (h : cx.AdmittedBefore T n) :
    ∀ p ∈ T, ∀ w, p.2.phase ≠ .walking n w :=
  fun p hp w hw => Nat.lt_irrefl n (h p hp n w hw).1

theorem true_not_mem_noes (c : Bool) (n : Nat) :
    true ∉ (if c then List.replicate n false else []) := by
  split <;> simp

theorem true_mem_of_stopped {answers : List Bool} {n : Nat}
    (h : answers = List.replicate n false ++ [true]) : true ∈ answers := by
  rw [h]
  simp

/-- The exit a walk took is the reason its report gives, and no other reason holds: the stop
hook's answers, the count of iterations and the shared state the last check read tell them
apart. -/
theorem Stats.Exited.iff {n : Nat} {term : Termination} (h : Stats.Exited cx T n term) :
    (term = .stopCondition ↔ 0 < n ∧ (Worker.hookLog cx T).filterMap HookCall.stopAnswer =
      List.replicate (n - 1) false ++ [true]) ∧
    (term = .maxIterations ↔ n = cx.config.maxIterations ∧
      true ∉ (Worker.hookLog cx T).filterMap HookCall.stopAnswer) ∧
    (term = .aborted ↔ n < cx.config.maxIterations ∧
      ∃ p ∈ T, ∃ w, p.2.phase = .walking n w ∧ p.1.abort = true) ∧
    (term = .cancelled ↔ n < cx.config.maxIterations ∧
      ∃ p ∈ T, ∃ w, p.2.phase = .walking n w ∧ p.1.abort = false ∧ cx.watchCancel = true ∧
        cx.observer.cancelRequested p.1.observer = true) := by
  cases h with
  | stopCondition h0 _ hans hadm =>
      refine ⟨⟨fun _ => ⟨h0, hans⟩, fun _ => rfl⟩,
        ⟨nofun, fun h => absurd (true_mem_of_stopped hans) h.2⟩,
        ⟨nofun, ?_⟩, ⟨nofun, ?_⟩⟩
      · rintro ⟨-, p, hp, w, hw, -⟩
        exact absurd hw (hadm.not_at p hp w)
      · rintro ⟨-, p, hp, w, hw, -⟩
        exact absurd hw (hadm.not_at p hp w)
  | maxIterations hn hans hadm =>
      have hno : true ∉ (Worker.hookLog cx T).filterMap HookCall.stopAnswer := by
        rw [hans]
        exact true_not_mem_noes _ _
      exact ⟨⟨nofun, fun h => absurd (true_mem_of_stopped h.2) hno⟩,
        ⟨fun _ => ⟨hn, hno⟩, fun _ => rfl⟩,
        ⟨nofun, fun h => absurd hn (Nat.ne_of_lt h.1)⟩,
        ⟨nofun, fun h => absurd hn (Nat.ne_of_lt h.1)⟩⟩
  | aborted hlt hans hall hex =>
      have hno : true ∉ (Worker.hookLog cx T).filterMap HookCall.stopAnswer := by
        rw [hans]
        exact true_not_mem_noes _ _
      refine ⟨⟨nofun, fun h => absurd (true_mem_of_stopped h.2) hno⟩,
        ⟨nofun, fun h => absurd h.1 (Nat.ne_of_lt hlt)⟩, ⟨fun _ => ⟨hlt, hex⟩, fun _ => rfl⟩,
        ⟨nofun, ?_⟩⟩
      · -- the check at `n` found the abort flag raised
        rintro ⟨-, p, hp, w, hw, hdown, -⟩
        rcases hall p hp n w hw with ⟨hlt', -⟩ | ⟨-, hup⟩
        · exact absurd hlt' (Nat.lt_irrefl n)
        · rw [hdown] at hup
          cases hup
  | cancelled hlt hans hall hex =>
      have hno : true ∉ (Worker.hookLog cx T).filterMap HookCall.stopAnswer := by
        rw [hans]
        exact true_not_mem_noes _ _
      refine ⟨⟨nofun, fun h => absurd (true_mem_of_stopped h.2) hno⟩,
        ⟨nofun, fun h => absurd h.1 (Nat.ne_of_lt hlt)⟩, ⟨nofun, ?_⟩,
        ⟨fun _ => ⟨hlt, hex⟩, fun _ => rfl⟩⟩
      · -- the check at `n` found the abort flag down
        rintro ⟨-, p, hp, w, hw, hup⟩
        rcases hall p hp n w hw with ⟨hlt', -⟩ | ⟨-, hdown, -⟩
        · exact absurd hlt' (Nat.lt_irrefl n)
        · rw [hdown] at hup
          cases hup

/-- What the whole life of a worker that finished says of its walk. -/
theorem Worker.lived_of_life (hc : cx.config.validate = .ok ()) (i : Nat) (g : Random.Stream)
    (shs : List (Shared σ ω S)) {best : S} {st : Stats}
    (hfin : (Worker.after cx shs ⟨i, g, .start⟩).phase = .finished best st) :
    ∃ ms, Stats.Lived cx (Worker.trace cx shs ⟨i, g, .start⟩) st ms := by
  have hmax := Config.maxIterations_pos hc
  have h₀ : Worker.Lived cx [] ⟨i, g, .start⟩ := rfl
  have hlife := Worker.life_induction (Worker.Lived cx)
    (fun _ _ _ h hok => h.step hmax hok) shs h₀ (by rw [hfin]; nofun)
  unfold Worker.Lived at hlife
  rw [hfin, List.nil_append] at hlife
  exact hlife

/-- The laws of a finished walk, through any shared states its steps began from: it ran at
most `maxIterations` iterations and drew one neighbour in each; the hooks that are set were
shown the iterations in order, each with the current energy and solution the iteration's move
reached; the reason it gives for stopping is exactly the check that stopped it; it counts at
most as many improving moves as accepted ones and as many accepted moves as iterations; and it
sampled the local best energy after every `historyInterval`-th iteration. -/
theorem Worker.walk_laws (hc : cx.config.validate = .ok ()) (i : Nat) (g : Random.Stream)
    (shs : List (Shared σ ω S)) {best : S} {st : Stats}
    (hfin : (Worker.after cx shs ⟨i, g, .start⟩).phase = .finished best st) :
    let T := Worker.trace cx shs ⟨i, g, .start⟩
    let answers := (Worker.hookLog cx T).filterMap HookCall.stopAnswer
    st.iterations ≤ cx.config.maxIterations ∧
    (Worker.problemLog cx T).countP ProblemCall.isNeighbor = st.iterations ∧
    ∃ ms : List (Walk S), ms.length = st.iterations ∧
      (∀ k m, ms[k]? = some m → ∃ p ∈ T, ∃ w y, p.2.phase = .walking k w ∧
        Turn.moveKeep cx p.2.index k w (p.1, p.2.stream) = .ok m y) ∧
      (Worker.hookLog cx T).filterMap HookCall.progressSeen =
        (if cx.observer.progress.isSome then ms.mapIdx Walk.seen else []) ∧
      (Worker.hookLog cx T).filterMap HookCall.stopSeen =
        (if cx.observer.stop.isSome then ms.mapIdx Walk.seen else []) ∧
      (st.termination = .stopCondition ↔
        0 < st.iterations ∧ answers = List.replicate (st.iterations - 1) false ++ [true]) ∧
      (st.termination = .maxIterations ↔
        st.iterations = cx.config.maxIterations ∧ true ∉ answers) ∧
      (st.termination = .aborted ↔ st.iterations < cx.config.maxIterations ∧
        ∃ p ∈ T, ∃ w, p.2.phase = .walking st.iterations w ∧ p.1.abort = true) ∧
      (st.termination = .cancelled ↔ st.iterations < cx.config.maxIterations ∧
        ∃ p ∈ T, ∃ w, p.2.phase = .walking st.iterations w ∧ p.1.abort = false ∧
          cx.watchCancel = true ∧ cx.observer.cancelRequested p.1.observer = true) ∧
      st.improvingMoves ≤ st.acceptedMoves ∧ st.acceptedMoves ≤ st.iterations ∧
      st.bestHistory.size = (if cx.config.historyInterval = 0 then 0
        else st.iterations / cx.config.historyInterval) ∧
      ∀ k, k < st.bestHistory.size →
        (ms[(k + 1) * cx.config.historyInterval - 1]?).map Walk.bestEnergy =
          st.bestHistory[k]? := by
  intro T answers
  obtain ⟨ms, hl⟩ := Worker.lived_of_life hc i g shs hfin
  obtain ⟨hstop, hmax, habort, hcancel⟩ := hl.exited.iff
  refine ⟨hl.le, hl.ran.neighbors, ms, hl.ran.length, hl.ran.reached, hl.ran.progress,
    hl.ran.stops, hstop, hmax, habort, hcancel, hl.ran.moves.1, hl.ran.moves.2, ?_,
    hl.ran.sampled⟩
  rw [hl.ran.samples]
  split
  · next h0 => rw [h0, Nat.div_zero]
  · rfl

end Laws

/-- A walk whose stop hook answers yes at iteration `1`, sampling the best after every
iteration. -/
def Setup.stopAtOne : Setup Unit Unit Unit where
  config := { maxIterations := 5, historyInterval := 1 }
  problem :=
    { randomSolution := pure (), energy := fun _ => pure 0.0, neighbor := fun _ => pure () }
  observer := { stop := some fun it _ _ => pure (it == 1) }
  watchCancel := false
  status := ⟨true, 1⟩

/-- Its worker, stepping three times, stops on the stop hook's first yes after two iterations,
with two samples of its best. -/
theorem Setup.stopAtOne_stops :
    ∃ best st, (Worker.after Setup.stopAtOne
        (List.replicate 3 { register := Register.empty, problem := (), observer := () })
        ⟨0, Random.Stream.ofSeed 0 0, .start⟩).phase = .finished best st ∧
      st.termination = .stopCondition ∧
      (Worker.hookLog Setup.stopAtOne (Worker.trace Setup.stopAtOne
        (List.replicate 3 { register := Register.empty, problem := (), observer := () })
        ⟨0, Random.Stream.ofSeed 0 0, .start⟩)).filterMap HookCall.stopAnswer = [false, true] ∧
      st.bestHistory.size = 2 := by
  obtain ⟨best, st, hfin⟩ : ∃ best st, (Worker.after Setup.stopAtOne
      (List.replicate 3 { register := Register.empty, problem := (), observer := () })
      ⟨0, Random.Stream.ofSeed 0 0, .start⟩).phase = .finished best st := ⟨_, _, rfl⟩
  obtain ⟨-, -, -, -, -, -, -, hstop, -, -, -, -, -, hsize, -⟩ :=
    Worker.walk_laws rfl 0 (Random.Stream.ofSeed 0 0)
      (List.replicate 3 { register := Register.empty, problem := (), observer := () }) hfin
  -- the run's report: two iterations, ended by the stop hook
  have hst : ((Worker.after Setup.stopAtOne
      (List.replicate 3 { register := Register.empty, problem := (), observer := () })
      ⟨0, Random.Stream.ofSeed 0 0, .start⟩).outcome.toOption.map
        fun r => (r.2.iterations, r.2.termination)) = some (2, .stopCondition) := rfl
  rw [Worker.outcome_of_finished hfin] at hst
  injection hst with hst
  obtain ⟨hit, hterm⟩ := Prod.mk.inj hst
  obtain ⟨-, hans⟩ := hstop.1 hterm
  refine ⟨best, st, hfin, hterm, ?_, ?_⟩
  · rw [hans, hit]
    rfl
  · rw [hsize, hit]
    rfl

end Annealing
