import Annealing.Proofs.Outcomes
import Annealing.Session

/-!
# One run at a time

An engine's running flag is raised by the one call it admits and lowered as that call returns,
and the calls it refuses touch nothing. Three facts carry this through any interleaving of
calls on a session.

What the flag guards (`Session.Guarded`): one call holds the engine while the flag is raised
and none while it is down, and the register of the run going on is valid. An admitted call
finds the flag down and raises it; a returning call lowers it; every other event leaves both
the flag and the holders as they are.

The register's energy never rises while a run holds the engine: a worker's step only offers
to the register, and so does the conclusion (`Worker.step_register`, proved by the lockstep of
a setup with itself at a register valid and below a bound).

A call that holds the engine serves the run `launch` makes from the state it found
(`Session.Serves`): the other calls can only be refused, and its own steps are the run's steps.
So its answer is `execute`'s, whatever the register and abort flag earlier runs left.
-/

namespace Annealing

open Annealing.Random

variable {σ ω S α : Type}

/-! ## The register under a run -/

/-- One state, whose register is valid with its energy at or below `E`. -/
def Lower (E : Float) (x₁ x₂ : Shared σ ω S × Stream) : Prop :=
  x₁ = x₂ ∧ x₁.1.register.Valid ∧ x₁.1.register.bestEnergy ≤ E

namespace Lower

theorem perform (E : Float) (i : Nat) (act : Eval σ α) :
    Lockstep (Lower E) Eq (Turn.perform i act : Turn σ ω S α) (Turn.perform i act) := by
  rintro ⟨sh, g⟩ _ ⟨rfl, hv, hle⟩
  simp only [Turn.perform]
  rcases act (sh.problem, g) with ⟨x, ⟨p, g'⟩⟩ | ⟨f, ⟨p, g'⟩⟩
  · exact ⟨rfl, rfl, hv, hle⟩
  · exact ⟨rfl, rfl, hv, hle⟩

theorem hook (E : Float) (i : Nat) (act : EStateM String ω α) :
    Lockstep (Lower E) Eq (Turn.hook i act : Turn σ ω S α) (Turn.hook i act) := by
  rintro ⟨sh, g⟩ _ ⟨rfl, hv, hle⟩
  simp only [Turn.hook]
  rcases act sh.observer with ⟨x, o⟩ | ⟨m, o⟩
  · exact ⟨rfl, rfl, hv, hle⟩
  · exact ⟨rfl, rfl, hv, hle⟩

theorem draw (E : Float) (f : Stream → α × Stream) :
    Lockstep (Lower E) Eq (Turn.draw f : Turn σ ω S α) (Turn.draw f) := by
  rintro ⟨sh, g⟩ _ ⟨rfl, hv, hle⟩
  exact ⟨rfl, rfl, hv, hle⟩

/-- An offer keeps the register valid and its energy from rising. -/
theorem offer {E : Float} {reg : Register S} (hv : reg.Valid) (hle : reg.bestEnergy ≤ E)
    (e : Float) (s : S) : (reg.offer e s).2.Valid ∧ (reg.offer e s).2.bestEnergy ≤ E :=
  ⟨hv.offer e s, Float.le_trans (Register.offer_bestEnergy_le hv e s) hle⟩

theorem publish (E : Float) (e : Float) (s : S) :
    Lockstep (Lower E) Eq (Turn.publish e s : Turn σ ω S Unit) (Turn.publish e s) := by
  rintro ⟨sh, g⟩ _ ⟨rfl, hv, hle⟩
  rw [Turn.publish_eq]
  refine ⟨rfl, rfl, ?_⟩
  split
  · exact offer hv hle e s
  · exact ⟨hv, hle⟩

end Lower

/-- The pieces of a turn keep the register valid and its energy from rising. -/
theorem Setup.lockstep_lower (cx : Setup σ ω S) (E : Float) : cx.Lockstep (Lower E) cx where
  config := rfl
  observer := rfl
  watchCancel := rfl
  status := rfl
  randomSolution i := Lower.perform E i _
  energy i _ := Lower.perform E i _
  neighbor i _ := Lower.perform E i _
  progress i _ _ _ _ _ _ := Lower.hook E i _
  stop i _ _ _ _ _ := Lower.hook E i _
  draw f := Lower.draw E f
  publish e s := Lower.publish E e s
  shared := by
    rintro x _ ⟨rfl, hv, hle⟩
    exact ⟨⟨rfl, rfl⟩, rfl, hv, hle⟩

/-- The restart offers its fresh solution to the register and writes nothing else there. -/
theorem Setup.restart_lower (cx : Setup σ ω S) (E : Float) (i it : Nat) (w : Walk S) :
    Annealing.Lockstep (Lower E) Eq (Turn.restart cx i it w) (Turn.restart cx i it w) := by
  have h := cx.lockstep_lower E
  unfold Turn.restart
  rcases w.restarter.tick with ⟨due, r⟩
  dsimp only
  split
  · exact Annealing.Lockstep.ret rfl
  · refine Annealing.Lockstep.bind (h.randomSolution i) fun fresh _ hf => ?_
    subst hf
    refine Annealing.Lockstep.bind (h.evaluate i it fresh) fun e _ he => ?_
    subst he
    refine Annealing.Lockstep.bind Lockstep.get fun x₁ x₂ hx => ?_
    obtain ⟨rfl, hv, hle⟩ := hx
    obtain ⟨sh, g⟩ := x₁
    dsimp only
    have hreg := Restarter.offer_register r fresh e sh.register
    rcases hoff : r.offer fresh e sh.register with ⟨adopted, r', reg⟩
    rw [hoff] at hreg
    have hreg : reg = (sh.register.offer e fresh).2 := hreg
    subst hreg
    dsimp only
    refine Annealing.Lockstep.bind
      (Annealing.Lockstep.set ⟨rfl, Lower.offer hv hle e fresh⟩) fun _ _ _ => ?_
    split
    · exact Annealing.Lockstep.ret rfl
    · exact Annealing.Lockstep.ret rfl

/-- A worker's step keeps the register valid and never raises its energy. -/
theorem Worker.step_register {cx : Setup σ ω S} {sh : Shared σ ω S} {wk : Worker S}
    (hv : sh.register.Valid) :
    (Worker.step cx sh wk).1.register.Valid ∧
      (Worker.step cx sh wk).1.register.bestEnergy ≤ sh.register.bestEnergy := by
  have h := cx.lockstep_lower sh.register.bestEnergy
  obtain ⟨-, -, hv', hle'⟩ := h.step (fun _ _ hq => by rw [hq.1])
    (fun x₁ _ _ ⟨hx, hv, hle⟩ _ => ⟨by rw [hx], hv, hle⟩)
    ⟨rfl, hv, Float.le_refl_of_isNaN_eq_false hv.bestEnergy_isNaN⟩
    fun it w _ => h.iterate wk.index it w (fun _ => True) (fun _ _ _ _ => trivial)
      fun w _ => cx.restart_lower _ wk.index it w
  exact ⟨hv', hle'⟩

namespace Engine

variable {cx : Setup σ ω S}

/-- Any steps of a pool keep the register valid and never raise its energy. -/
theorem interleave_register (cx : Setup σ ω S) (schedule : List Nat) {sh : Shared σ ω S}
    (pool : Array (Worker S))
    (hv : sh.register.Valid) :
    (interleave cx schedule sh pool).1.register.Valid ∧
      (interleave cx schedule sh pool).1.register.bestEnergy ≤ sh.register.bestEnergy := by
  induction schedule generalizing sh pool with
  | nil => exact ⟨hv, Float.le_refl_of_isNaN_eq_false hv.bestEnergy_isNaN⟩
  | cons i rest ih =>
      rw [interleave_cons]
      have hstep : (stepAt cx i (sh, pool)).1.register.Valid ∧
          (stepAt cx i (sh, pool)).1.register.bestEnergy ≤ sh.register.bestEnergy := by
        unfold stepAt
        split
        · exact Worker.step_register hv
        · exact ⟨hv, Float.le_refl_of_isNaN_eq_false hv.bestEnergy_isNaN⟩
      obtain ⟨hv', hle'⟩ := ih _ hstep.1
      exact ⟨hv', Float.le_trans hle' hstep.2⟩

/-- Offering the workers' bests once more keeps the register valid and its energy from
rising. -/
theorem reconcile_register {sh : Shared σ ω S} (hv : sh.register.Valid)
    (reports : List (S × Stats)) :
    (reconcile sh reports).register.Valid ∧
      (reconcile sh reports).register.bestEnergy ≤ sh.register.bestEnergy := by
  induction reports generalizing sh with
  | nil => exact ⟨hv, Float.le_refl_of_isNaN_eq_false hv.bestEnergy_isNaN⟩
  | cons q rest ih =>
      obtain ⟨best, st⟩ := q
      have hle₀ := Float.le_refl_of_isNaN_eq_false hv.bestEnergy_isNaN
      -- the first report is offered when it is no worse, and the rest follow
      simp only [reconcile, List.foldl_cons] at ih ⊢
      split
      · have hoff := Lower.offer hv hle₀ st.bestEnergy best
        obtain ⟨hv', hle'⟩ :=
          @ih { sh with register := (sh.register.offer st.bestEnergy best).2 } hoff.1
        exact ⟨hv', Float.le_trans hle' hoff.2⟩
      · exact ih hv

/-- The conclusion of a run keeps the register valid and its energy from rising. -/
theorem conclude_register {sh : Shared σ ω S} (hv : sh.register.Valid)
    (outcomes : List (Except RunError (S × Stats))) :
    (conclude sh outcomes).shared.register.Valid ∧
      (conclude sh outcomes).shared.register.bestEnergy ≤ sh.register.bestEnergy := by
  unfold conclude
  split
  · exact ⟨hv, Float.le_refl_of_isNaN_eq_false hv.bestEnergy_isNaN⟩
  · dsimp only
    split
    · exact reconcile_register hv _
    · exact reconcile_register hv _

end Engine

/-! ## Who holds the engine -/

/-- Writing one entry of an array changes how many entries satisfy `p` by what the old and the
new entry count. -/
theorem countP_setIfInBounds {β : Type} {xs : Array β} {k : Nat} {a : β} (b : β)
    (h : xs[k]? = some a) (p : β → Bool) :
    (xs.setIfInBounds k b).toList.countP p + (if p a then 1 else 0) =
      xs.toList.countP p + (if p b then 1 else 0) := by
  obtain ⟨hk, rfl⟩ := Array.getElem?_eq_some_iff.1 h
  have hk' : k < xs.toList.length := by simpa using hk
  rw [Array.toList_setIfInBounds, List.countP_set hk', Array.getElem_toList]
  -- the old entry is counted among the entries when it satisfies `p`
  have hpos : (if p xs[k] then 1 else 0) ≤ xs.toList.countP p := by
    split
    · next hp => exact List.countP_pos_iff.2 ⟨xs[k], Array.getElem_mem_toList hk, hp⟩
    · exact Nat.zero_le _
  omega

/-- Whether a call holds the engine. -/
def Request.holds : Request S → Bool
  | .holding .. => true
  | .pending .. | .returned _ => false

namespace Session

variable {e : Engine σ ω S} {s : Session σ ω S}

/-- What the running flag guards: one call holds the engine while the flag is raised and none
while it is down, and the register of the run going on is valid. -/
structure Guarded (s : Session σ ω S) : Prop where
  holders : s.requests.toList.countP Request.holds = if s.running then 1 else 0
  valid : s.running = true → s.shared.register.Valid

theorem start_of_pending {k threads : Nat} {w : Bool} {r : UInt64}
    (hk : s.requests[k]? = some (.pending threads w r)) :
    s.handle e (.start k) = s.start e k threads w r := by
  simp only [handle, hk]

theorem step_of_holding {k threads : Nat} {w : Bool} {ws : Array (Worker S)}
    (hk : s.requests[k]? = some (.holding threads w ws)) (i : Nat) :
    s.handle e (.step k i) = s.step e k threads w ws i := by
  simp only [handle, hk]

theorem finish_of_holding {k threads : Nat} {w : Bool} {ws : Array (Worker S)}
    (hk : s.requests[k]? = some (.holding threads w ws)) :
    s.handle e (.finish k) = s.finish e k threads w ws := by
  simp only [handle, hk]

theorem start_idle {k : Nat}
    (hk : ∀ threads w r, s.requests[k]? ≠ some (.pending threads w r)) :
    s.handle e (.start k) = s := by
  rw [handle]
  split
  · next h => exact absurd h (hk _ _ _)
  · rfl

theorem step_idle {k : Nat}
    (hk : ∀ threads w ws, s.requests[k]? ≠ some (.holding threads w ws)) (i : Nat) :
    s.handle e (.step k i) = s := by
  rw [handle]
  split
  · next h => exact absurd h (hk _ _ _)
  · rfl

theorem finish_idle {k : Nat}
    (hk : ∀ threads w ws, s.requests[k]? ≠ some (.holding threads w ws)) :
    s.handle e (.finish k) = s := by
  rw [handle]
  split
  · next h => exact absurd h (hk _ _ _)
  · rfl

/-- A call refused at its checks returns its refusal and leaves the engine as it is. -/
theorem start_refused {k threads : Nat} {w : Bool} {r : UInt64} {err : RunError}
    (hk : s.requests[k]? = some (.pending threads w r))
    (hc : Engine.checkStart threads s.running = .error err) :
    (s.handle e (.start k)).running = s.running ∧ (s.handle e (.start k)).shared = s.shared ∧
      (s.handle e (.start k)).requests = s.requests.setIfInBounds k (.returned (.error err)) := by
  rw [start_of_pending hk]
  unfold start
  rw [hc]
  exact ⟨rfl, rfl, rfl⟩

/-- A call admitted at its checks raises the flag and takes the engine with an empty register,
the abort flag down, and fresh workers. -/
theorem start_admitted {k threads : Nat} {w : Bool} {r : UInt64}
    (hk : s.requests[k]? = some (.pending threads w r))
    (hc : Engine.checkStart threads s.running = .ok ()) :
    s.handle e (.start k) =
      { running := true
        shared := { s.shared with register := Register.empty, abort := false }
        requests := s.requests.setIfInBounds k
          (.holding threads w (Engine.pool (e.config.seed.getD r) threads)) } := by
  rw [start_of_pending hk]
  unfold start
  rw [hc]

theorem checkStart_ok {threads : Nat} {running : Bool}
    (h : Engine.checkStart threads running = .ok ()) : 0 < threads ∧ running = false := by
  unfold Engine.checkStart at h
  split at h
  · cases h
  split at h
  · cases h
  · rename_i h₀ hr
    exact ⟨Nat.pos_of_ne_zero h₀, Bool.eq_false_iff.2 hr⟩

/-- A call without a worker, or made while a run holds the engine, is refused, and a call
without a worker is refused for that first. -/
theorem checkStart_refused {threads : Nat} {running : Bool} (h : threads = 0 ∨ running = true) :
    Engine.checkStart threads running =
      .error (if threads = 0 then .config .zeroThreads else .alreadyRunning) := by
  unfold Engine.checkStart
  by_cases h0 : threads = 0
  · rw [if_pos h0, if_pos h0]
  · rw [if_neg h0, if_neg h0, h.resolve_left h0]
    rfl

theorem checkStart_admitted {threads : Nat} {running : Bool} (hn : 0 < threads)
    (hdown : running = false) : Engine.checkStart threads running = .ok () := by
  unfold Engine.checkStart
  rw [if_neg (Nat.pos_iff_ne_zero.1 hn), hdown]
  rfl

namespace Guarded

/-- A call holds the engine only while the flag is raised. -/
theorem running_of_holds (h : s.Guarded) {k : Nat} {req : Request S}
    (hk : s.requests[k]? = some req) (hr : req.holds = true) : s.running = true := by
  obtain ⟨hk', rfl⟩ := Array.getElem?_eq_some_iff.1 hk
  have hpos : 0 < s.requests.toList.countP Request.holds :=
    List.countP_pos_iff.2 ⟨_, Array.getElem_mem_toList hk', hr⟩
  rw [h.holders] at hpos
  cases hrun : s.running
  · rw [hrun] at hpos
    cases hpos
  · rfl

/-- Two calls that hold the engine are one call. -/
theorem unique (h : s.Guarded) {j k : Nat} {a b : Request S} (hj : s.requests[j]? = some a)
    (hk : s.requests[k]? = some b) (ha : a.holds = true) (hb : b.holds = true) : j = k := by
  by_contra hjk
  -- without call `j`, call `k` still holds the engine, so two calls held it
  have hset := countP_setIfInBounds (.returned (.error .noSolution)) hj Request.holds
  have hk' : (s.requests.setIfInBounds j (.returned (.error .noSolution)))[k]? = some b := by
    rw [Array.getElem?_setIfInBounds_ne hjk]
    exact hk
  obtain ⟨hkl, hkb⟩ := Array.getElem?_eq_some_iff.1 hk'
  have hpos : 0 < (s.requests.setIfInBounds j (.returned (.error .noSolution))).toList.countP
      Request.holds :=
    List.countP_pos_iff.2 ⟨_, Array.getElem_mem_toList hkl, hkb ▸ hb⟩
  rw [ha, if_pos rfl, h.holders, h.running_of_holds hj ha, if_pos rfl] at hset
  simp only [Request.holds, Bool.false_eq_true, if_false] at hset
  omega

/-- How many calls hold the engine once call `k` moves from `a` to `b`. -/
theorem holders_set (h : s.Guarded) {k : Nat} {a : Request S} (hk : s.requests[k]? = some a)
    (b : Request S) :
    (s.requests.setIfInBounds k b).toList.countP Request.holds + (if a.holds then 1 else 0) =
      (if s.running then 1 else 0) + (if b.holds then 1 else 0) := by
  rw [countP_setIfInBounds b hk, h.holders]

/-- Every event keeps what the flag guards. -/
theorem handle (h : s.Guarded) (ev : Event) : (s.handle e ev).Guarded := by
  cases ev with
  | start k =>
      by_cases hp : ∃ threads w r, s.requests[k]? = some (.pending threads w r)
      · obtain ⟨threads, w, r, hk⟩ := hp
        rcases hc : Engine.checkStart threads s.running with err | u
        · -- refused: the call returns, and nothing else moves
          obtain ⟨hrun, hsh, hreq⟩ := start_refused (e := e) hk hc
          have hcount := h.holders_set hk (.returned (.error err))
          simp only [Request.holds, Bool.false_eq_true, if_false, Nat.add_zero] at hcount
          refine ⟨?_, ?_⟩
          · rw [hreq, hrun, hcount]
          · rw [hrun, hsh]
            exact h.valid
        · -- admitted: the flag was down, so no call held the engine, and now this one does
          obtain ⟨-, hdown⟩ := checkStart_ok hc
          rw [start_admitted hk hc]
          have hcount := h.holders_set hk
            (.holding threads w (Engine.pool (e.config.seed.getD r) threads))
          simp only [Request.holds, hdown, Bool.false_eq_true, if_false, if_true, Nat.add_zero,
            Nat.zero_add] at hcount
          exact ⟨hcount, fun _ => Register.empty_valid⟩
      · rw [start_idle fun threads w r hk => hp ⟨threads, w, r, hk⟩]
        exact h
  | step k i =>
      by_cases hp : ∃ threads w ws, s.requests[k]? = some (.holding threads w ws)
      · -- the call that holds the engine keeps holding it
        obtain ⟨threads, w, ws, hk⟩ := hp
        have hrun := h.running_of_holds hk rfl
        rw [step_of_holding hk]
        have hcount := h.holders_set hk
          (.holding threads w (Engine.interleave (e.setup w) [i] s.shared ws).2)
        simp only [Request.holds, if_true] at hcount
        exact ⟨Nat.add_right_cancel hcount, fun _ =>
          (Engine.interleave_register (e.setup w) [i] ws (h.valid hrun)).1⟩
      · rw [step_idle (fun threads w ws hk => hp ⟨threads, w, ws, hk⟩) i]
        exact h
  | finish k =>
      by_cases hp : ∃ threads w ws, s.requests[k]? = some (.holding threads w ws)
      · -- the call that held the engine returns, and the flag goes down
        obtain ⟨threads, w, ws, hk⟩ := hp
        have hrun := h.running_of_holds hk rfl
        rw [finish_of_holding hk]
        obtain ⟨res, hres⟩ : ∃ res, (s.finish e k threads w ws).requests =
            s.requests.setIfInBounds k (.returned res) := ⟨_, rfl⟩
        have hset := h.holders_set hk (.returned res)
        simp only [Request.holds, hrun, Bool.false_eq_true, if_false, if_true, Nat.add_zero]
          at hset
        refine ⟨?_, fun hup => absurd hup Bool.false_ne_true⟩
        show (s.finish e k threads w ws).requests.toList.countP Request.holds =
          if false = true then 1 else 0
        rw [hres, if_neg Bool.false_ne_true]
        omega
      · rw [finish_idle fun threads w ws hk => hp ⟨threads, w, ws, hk⟩]
        exact h

theorem interleave (h : s.Guarded) (events : List Event) :
    (Session.interleave e events s).Guarded := by
  induction events generalizing s with
  | nil => exact h
  | cons ev rest ih => exact ih (h.handle ev)

/-- While a run holds the engine, no event raises the register's energy: the calls refused
leave it alone, and the run's own steps and its conclusion only offer to it. -/
theorem lowers (h : s.Guarded) (hrun : s.running = true) (ev : Event) :
    (s.handle e ev).shared.register.bestEnergy ≤ s.shared.register.bestEnergy := by
  have hv := h.valid hrun
  have hrefl := Float.le_refl_of_isNaN_eq_false hv.bestEnergy_isNaN
  cases ev with
  | start k =>
      by_cases hp : ∃ threads w r, s.requests[k]? = some (.pending threads w r)
      · obtain ⟨threads, w, r, hk⟩ := hp
        rcases hc : Engine.checkStart threads s.running with err | u
        · rw [(start_refused (e := e) hk hc).2.1]
          exact hrefl
        · exact absurd hrun (by rw [(checkStart_ok hc).2]; exact Bool.false_ne_true)
      · rw [start_idle fun threads w r hk => hp ⟨threads, w, r, hk⟩]
        exact hrefl
  | step k i =>
      by_cases hp : ∃ threads w ws, s.requests[k]? = some (.holding threads w ws)
      · obtain ⟨threads, w, ws, hk⟩ := hp
        rw [step_of_holding hk]
        exact (Engine.interleave_register (e.setup w) [i] ws hv).2
      · rw [step_idle (fun threads w ws hk => hp ⟨threads, w, ws, hk⟩) i]
        exact hrefl
  | finish k =>
      by_cases hp : ∃ threads w ws, s.requests[k]? = some (.holding threads w ws)
      · obtain ⟨threads, w, ws, hk⟩ := hp
        rw [finish_of_holding hk]
        -- the run to the end, then the conclusion
        have hend := Engine.interleave_register (e.setup w)
          (Engine.inOrder threads (e.config.maxIterations + 1)) ws hv
        exact Float.le_trans (Engine.conclude_register hend.1 _).2 hend.2
      · rw [finish_idle fun threads w ws hk => hp ⟨threads, w, ws, hk⟩]
        exact hrefl

end Guarded

end Session

/-- The worker an event steps for call `k`, if it steps one of call `k`'s workers. -/
def Event.stepsOf (k : Nat) : Event → List Nat
  | .step j i => if j = k then [i] else []
  | .start _ | .finish _ => []

namespace Session

variable {e : Engine σ ω S} {s : Session σ ω S}

/-- Call `k` holds the engine, and the engine and the call's workers are where the run of
`launch` from `sh` is after the steps `sched` of those workers. -/
structure Serves (e : Engine σ ω S) (s : Session σ ω S) (k : Nat) (sh : Shared σ ω S)
    (threads : Nat) (w : Bool) (r : UInt64) (sched : List Nat) : Prop where
  guarded : s.Guarded
  running : s.running = true
  request : s.requests[k]? = some (.holding threads w
    (Engine.interleave (e.setup w) sched { sh with register := Register.empty, abort := false }
      (Engine.pool (e.config.seed.getD r) threads)).2)
  shared : s.shared = (Engine.interleave (e.setup w) sched
    { sh with register := Register.empty, abort := false }
      (Engine.pool (e.config.seed.getD r) threads)).1

namespace Serves

variable {k : Nat} {sh : Shared σ ω S} {threads : Nat} {w : Bool} {r : UInt64}
  {sched : List Nat}

/-- No other call holds the engine. -/
theorem not_holding (h : Serves e s k sh threads w r sched) {j : Nat} (hjk : j ≠ k) :
    ∀ n w' ws, s.requests[j]? ≠ some (.holding n w' ws) :=
  fun _ _ _ hj => hjk (h.guarded.unique hj h.request rfl rfl)

/-- Any event but the end of call `k` leaves it serving, its steps counted: the other calls are
refused or idle, and its own steps are the run's. -/
theorem handle (h : Serves e s k sh threads w r sched) (ev : Event) (hev : ev ≠ .finish k) :
    Serves e (s.handle e ev) k sh threads w r (sched ++ ev.stepsOf k) := by
  cases ev with
  | start j =>
      rw [show Event.stepsOf k (.start j) = [] from rfl, List.append_nil]
      by_cases hp : ∃ n w' r', s.requests[j]? = some (.pending n w' r')
      · -- the engine is held, so the call is refused
        obtain ⟨n, w', r', hj⟩ := hp
        have hjk : j ≠ k := by
          rintro rfl
          rw [h.request] at hj
          cases hj
        obtain ⟨hrun, hsh, hreq⟩ :=
          start_refused (e := e) hj (checkStart_refused (.inr h.running))
        refine ⟨h.guarded.handle _, hrun.trans h.running, ?_, hsh.trans h.shared⟩
        rw [hreq, Array.getElem?_setIfInBounds_ne hjk]
        exact h.request
      · rw [start_idle fun n w' r' hj => hp ⟨n, w', r', hj⟩]
        exact h
  | step j i =>
      by_cases hjk : j = k
      · -- a step of the call's own workers is the run's next step
        subst hjk
        have hg := h.guarded.handle (e := e) (.step j i)
        rw [step_of_holding h.request] at hg ⊢
        have hsteps : Event.stepsOf j (.step j i) = [i] := if_pos rfl
        have hj : j < s.requests.size := (Array.getElem?_eq_some_iff.1 h.request).1
        have happ : Engine.interleave (e.setup w) [i] s.shared
              (Engine.interleave (e.setup w) sched
                { sh with register := Register.empty, abort := false }
                (Engine.pool (e.config.seed.getD r) threads)).2 =
            Engine.interleave (e.setup w) (sched ++ [i])
              { sh with register := Register.empty, abort := false }
              (Engine.pool (e.config.seed.getD r) threads) := by
          rw [h.shared, Engine.interleave_append]
        rw [hsteps]
        refine ⟨hg, h.running, ?_, ?_⟩
        · show (s.requests.setIfInBounds j (.holding threads w
            (Engine.interleave (e.setup w) [i] s.shared _).2))[j]? = _
          rw [happ, Array.getElem?_setIfInBounds_self_of_lt hj]
        · show (Engine.interleave (e.setup w) [i] s.shared _).1 = _
          rw [happ]
      · rw [show Event.stepsOf k (.step j i) = [] from if_neg hjk, List.append_nil,
          step_idle (h.not_holding hjk) i]
        exact h
  | finish j =>
      have hjk : j ≠ k := fun hjk => hev (by rw [hjk])
      rw [show Event.stepsOf k (.finish j) = [] from rfl, List.append_nil,
        finish_idle (h.not_holding hjk)]
      exact h

theorem interleave (h : Serves e s k sh threads w r sched) (events : List Event)
    (hev : ∀ ev ∈ events, ev ≠ .finish k) :
    Serves e (Session.interleave e events s) k sh threads w r
      (sched ++ events.flatMap (Event.stepsOf k)) := by
  induction events generalizing s sched with
  | nil =>
      rw [List.flatMap_nil, List.append_nil]
      exact h
  | cons ev rest ih =>
      have h₁ := h.handle ev (hev ev List.mem_cons_self)
      have h₂ := ih h₁ fun ev' hev' => hev ev' (List.mem_cons_of_mem _ hev')
      rw [List.flatMap_cons, ← List.append_assoc]
      exact h₂

/-- The end of call `k` is the end of the run of `launch`: the call returns the run's answer,
the engine is left as the run leaves it, and the flag goes down. -/
theorem finish (h : Serves e s k sh threads w r sched) :
    (s.handle e (.finish k)).requests[k]? =
        some (.returned (e.launch sh threads w r sched).result) ∧
      (s.handle e (.finish k)).shared = (e.launch sh threads w r sched).shared ∧
      (s.handle e (.finish k)).running = false := by
  rw [finish_of_holding h.request]
  have hk : k < s.requests.size := (Array.getElem?_eq_some_iff.1 h.request).1
  -- the run to the end from where the steps left it is the whole run
  have hend : Engine.interleave (e.setup w) (Engine.inOrder threads (e.config.maxIterations + 1))
        s.shared (Engine.interleave (e.setup w) sched
          { sh with register := Register.empty, abort := false }
          (Engine.pool (e.config.seed.getD r) threads)).2 =
      Engine.settle (e.setup w) (e.config.seed.getD r) threads sched
        { sh with register := Register.empty, abort := false } := by
    rw [h.shared, Engine.settle, Engine.interleave_append]
    rfl
  refine ⟨?_, ?_, rfl⟩
  · show (s.requests.setIfInBounds k (.returned (Engine.conclude
      (Engine.interleave (e.setup w) _ s.shared _).1
      ((Engine.interleave (e.setup w) _ s.shared _).2.toList.map Worker.outcome)).result))[k]? = _
    rw [hend, Array.getElem?_setIfInBounds_self_of_lt hk]
    rfl
  · show (Engine.conclude (Engine.interleave (e.setup w) _ s.shared _).1
      ((Engine.interleave (e.setup w) _ s.shared _).2.toList.map Worker.outcome)).shared = _
    rw [hend]
    rfl

end Serves

theorem interleave_append_finish (events : List Event) (k : Nat) (s : Session σ ω S) :
    Session.interleave e (events ++ [.finish k]) s =
      (Session.interleave e events s).handle e (.finish k) := by
  rw [Session.interleave, List.foldl_append]
  rfl

/-- One run at a time, in any interleaving of any calls on an engine, its hooks' calls among
them. A call holds the engine exactly while the running flag is raised, so never two at once;
while a run holds it no event raises the register's energy. A call refused at its checks, for
want of a worker or because a run holds the engine, returns its refusal and leaves the flag
and the shared state as they are. An admitted call takes the engine with an empty register,
and whatever the other calls do meanwhile it returns what `execute` returns from the state it
found, whatever register and abort flag earlier runs left there, and leaves the engine as that
run does. A call that returns from the engine lowers the flag, whatever its answer. -/
theorem runs_one_call_at_a_time (e : Engine σ ω S) (s₀ : Session σ ω S)
    (hidle : s₀.running = false) (hfree : ∀ req ∈ s₀.requests, req.holds = false)
    (pre : List Event) :
    let s := Session.interleave e pre s₀
    s.requests.toList.countP Request.holds = (if s.running then 1 else 0) ∧
    ∀ ev, (s.running = true →
        (s.handle e ev).shared.register.bestEnergy ≤ s.shared.register.bestEnergy) ∧
      (∀ k threads w r, ev = .start k → s.requests[k]? = some (.pending threads w r) →
        ((threads = 0 ∨ s.running = true) →
          (s.handle e ev).running = s.running ∧ (s.handle e ev).shared = s.shared ∧
          (s.handle e ev).requests[k]? = some (.returned (.error
            (if threads = 0 then .config .zeroThreads else .alreadyRunning)))) ∧
        (0 < threads → s.running = false →
          (s.handle e ev).running = true ∧ (s.handle e ev).shared.register = Register.empty ∧
          ∀ mid, (∀ ev' ∈ mid, ev' ≠ .finish k) → ∀ reg ab,
            let run := e.execute { s.shared with register := reg, abort := ab } false threads w r
              (mid.flatMap (Event.stepsOf k))
            (Session.interleave e (mid ++ [.finish k]) (s.handle e ev)).requests[k]? =
                some (.returned run.result) ∧
              (Session.interleave e (mid ++ [.finish k]) (s.handle e ev)).shared =
                run.shared)) ∧
      (∀ k, ev = .finish k → (∃ n w ws, s.requests[k]? = some (.holding n w ws)) →
        (s.handle e ev).running = false) := by
  intro s
  -- the flag guards the engine from the start, and every event keeps it so
  have h₀ : s₀.Guarded := by
    refine ⟨?_, fun hup => absurd (hidle ▸ hup) Bool.false_ne_true⟩
    rw [hidle, if_neg Bool.false_ne_true, List.countP_eq_zero]
    intro req hreq
    rw [hfree req (Array.mem_toList_iff.1 hreq)]
    exact Bool.false_ne_true
  have hg : s.Guarded := h₀.interleave pre
  refine ⟨hg.holders, fun ev => ⟨fun hup => hg.lowers hup ev, ?_, ?_⟩⟩
  · rintro k threads w r rfl hk
    have hks : k < s.requests.size := (Array.getElem?_eq_some_iff.1 hk).1
    refine ⟨fun hrefuse => ?_, fun hn hdown => ?_⟩
    · -- refused for want of a worker, or because a run holds the engine
      obtain ⟨hrun, hsh, hreq⟩ := start_refused (e := e) hk (checkStart_refused hrefuse)
      refine ⟨hrun, hsh, ?_⟩
      rw [hreq, Array.getElem?_setIfInBounds_self_of_lt hks]
    · -- admitted: the call serves the run from the state it found
      have hadm := start_admitted (e := e) hk (checkStart_admitted hn hdown)
      have hserve : Serves e (s.handle e (.start k)) k s.shared threads w r [] := by
        refine ⟨hg.handle _, by rw [hadm], ?_, by rw [hadm]; rfl⟩
        rw [hadm]
        exact Array.getElem?_setIfInBounds_self_of_lt hks
      refine ⟨by rw [hadm], by rw [hadm], fun mid hmid reg ab => ?_⟩
      obtain ⟨hreq, hsh, -⟩ := (hserve.interleave mid hmid).finish
      rw [List.nil_append] at hreq hsh
      -- the run ignores the register and the abort flag it finds
      have hexec : e.execute { s.shared with register := reg, abort := ab } false threads w r
          (mid.flatMap (Event.stepsOf k)) = e.launch s.shared threads w r
            (mid.flatMap (Event.stepsOf k)) := by
        rw [Engine.execute_admitted e _ hn]
        rfl
      rw [interleave_append_finish]
      dsimp only
      rw [hexec]
      exact ⟨hreq, hsh⟩
  · rintro k rfl ⟨n, w, ws, hk⟩
    rw [finish_of_holding hk]
    rfl

end Session

/-- An engine whose problem is flat, with two iterations a run. -/
def Engine.flat : Engine Unit Unit Unit where
  problem :=
    { randomSolution := pure (), energy := fun _ => pure 0.0, neighbor := fun _ => pure () }
  config := { maxIterations := 2 }

/-- Of two calls with one worker each on it, the second, made while the first holds the engine,
is refused as already running. -/
theorem Session.second_call_refused :
    (Session.interleave Engine.flat [.start 0, .start 1]
        ⟨false, ⟨Register.empty, (), (), false⟩,
          #[.pending 1 false 0, .pending 1 false 0]⟩).requests[1]? =
      some (.returned (.error .alreadyRunning)) := by
  obtain ⟨-, hev⟩ := Session.runs_one_call_at_a_time Engine.flat
    ⟨false, ⟨Register.empty, (), (), false⟩, #[.pending 1 false 0, .pending 1 false 0]⟩ rfl
    (by decide) [.start 0]
  obtain ⟨-, hstart, -⟩ := hev (.start 1)
  exact ((hstart 1 1 false 0 rfl rfl).1 (.inr rfl)).2.2

end Annealing
