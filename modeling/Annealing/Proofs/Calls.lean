import Annealing.Proofs.Audit
import Annealing.Proofs.Reproducible

/-!
# What each piece of a turn asks of the problem and the hooks

The pieces of a worker's turn, run by an audited setup, read off the code once each: which
calls they note, what they do to the walk's counters, and which failure ends them. Later
proofs peel a step into these pieces with `bind_eq_ok` and `bind_eq_error` and never unfold a
piece again.

A failing piece notes exactly one failing call, and the run error it ends with is that call's
failure (`ProblemCall.failure`, `HookCall.failure`): a fault of the problem, blamed on the
worker as `Fault.blame` does; a NaN energy, at the iteration the energy belongs to; or a hook
that stopped abnormally. The one failure that notes no failing call is the adaptive
controller's reservation at the start of a walk.
-/

namespace Annealing

open Annealing.Random

variable {σ ω S α : Type}

/-! ## Failures of calls -/

/-- The failure a problem call's answer is for worker `i` at iteration `it`: a fault of the
problem, or a NaN energy. -/
def ProblemCall.failure (i it : Nat) : ProblemCall S → Option RunError
  | .randomSolution (.error f) => some (f.blame i)
  | .energy _ (.error f) => some (f.blame i)
  | .neighbor _ (.error f) => some (f.blame i)
  | .energy _ (.ok v) => if v.isNaN then some (.nanEnergy i it) else none
  | .randomSolution (.ok _) => none
  | .neighbor _ (.ok _) => none

/-- The failure a hook call's answer is for worker `i`: a hook that stopped abnormally. -/
def HookCall.failure (i : Nat) : HookCall S → Option RunError
  | .progress _ _ _ (.error m) => some (.callback i m)
  | .stop _ _ _ (.error m) => some (.callback i m)
  | .progress _ _ _ (.ok _) => none
  | .stop _ _ _ (.ok _) => none

/-- The failures among calls, problem calls first. -/
def failures (i it : Nat) (P : List (ProblemCall S)) (H : List (HookCall S)) : List RunError :=
  P.filterMap (·.failure i it) ++ H.filterMap (·.failure i)

@[simp] theorem failures_nil (i it : Nat) : failures i it ([] : List (ProblemCall S)) [] = [] :=
  rfl

theorem failures_append (i it : Nat) (P P' : List (ProblemCall S)) (H H' : List (HookCall S)) :
    failures i it (P ++ P') (H ++ H') =
      P.filterMap (·.failure i it) ++ P'.filterMap (·.failure i it) ++
        (H.filterMap (·.failure i) ++ H'.filterMap (·.failure i)) := by
  simp [failures, List.filterMap_append]

/-! ## Noting calls -/

/-- The audited state `y` follows `x` with the problem calls `P` and the hook calls `H` noted
after those `x` holds. -/
structure Notes (x y : Shared (σ × List (ProblemCall S)) (ω × List (HookCall S)) S × Stream)
    (P : List (ProblemCall S)) (H : List (HookCall S)) : Prop where
  problem : y.1.problemCalls = x.1.problemCalls ++ P
  hooks : y.1.hookCalls = x.1.hookCalls ++ H

namespace Notes

variable {x y z : Shared (σ × List (ProblemCall S)) (ω × List (HookCall S)) S × Stream}
  {P P' : List (ProblemCall S)} {H H' : List (HookCall S)}

theorem trans (h₁ : Notes x y P H) (h₂ : Notes y z P' H') : Notes x z (P ++ P') (H ++ H') :=
  ⟨by rw [h₂.problem, h₁.problem, List.append_assoc],
    by rw [h₂.hooks, h₁.hooks, List.append_assoc]⟩

theorem of_eq (hp : y.1.problem = x.1.problem) (ho : y.1.observer = x.1.observer) :
    Notes x y [] [] :=
  ⟨by simp [Shared.problemCalls, hp], by simp [Shared.hookCalls, ho]⟩

theorem refl (x : Shared (σ × List (ProblemCall S)) (ω × List (HookCall S)) S × Stream) :
    Notes x x [] [] :=
  of_eq rfl rfl

end Notes

/-! ## The primitives -/

namespace Turn

variable {x y : Shared (σ × List (ProblemCall S)) (ω × List (HookCall S)) S × Stream}
  {i it : Nat}

theorem perform_audit_ok {act : Eval σ α} {entry : Except Fault α → ProblemCall S} {a : α}
    (h : Turn.perform i (Eval.audit act entry) x = .ok a y) : Notes x y [entry (.ok a)] [] := by
  obtain ⟨⟨reg, ⟨p, log⟩, obs, ab⟩, g⟩ := x
  simp only [Turn.perform, Eval.audit] at h
  rcases hact : act (p, g) with ⟨a', ⟨p', g'⟩⟩ | ⟨f, ⟨p', g'⟩⟩ <;> rw [hact] at h <;> cases h
  exact ⟨rfl, (List.append_nil _).symm⟩

theorem perform_audit_error {act : Eval σ α} {entry : Except Fault α → ProblemCall S}
    {e : RunError} (h : Turn.perform i (Eval.audit act entry) x = .error e y) :
    ∃ f, e = f.blame i ∧ Notes x y [entry (.error f)] [] := by
  obtain ⟨⟨reg, ⟨p, log⟩, obs, ab⟩, g⟩ := x
  simp only [Turn.perform, Eval.audit] at h
  rcases hact : act (p, g) with ⟨a', ⟨p', g'⟩⟩ | ⟨f, ⟨p', g'⟩⟩ <;> rw [hact] at h <;> cases h
  exact ⟨f, rfl, rfl, (List.append_nil _).symm⟩

theorem evaluate_audit_ok {cx : Setup σ ω S} {s : S} {v : Float}
    (h : Turn.evaluate cx.audited.problem i it s x = .ok v y) :
    v.isNaN = false ∧ Notes x y [.energy s (.ok v)] [] := by
  obtain ⟨v', z, hperform, hcheck⟩ := bind_eq_ok.1 h
  have hz : Notes x z [.energy s (.ok v')] [] := perform_audit_ok hperform
  split at hcheck
  · cases hcheck
  · next hnan =>
      cases hcheck
      exact ⟨by simpa using hnan, hz⟩

/-- A failed evaluation notes one energy call, whose failure it ends with. -/
theorem evaluate_audit_error {cx : Setup σ ω S} {s : S} {e : RunError}
    (h : Turn.evaluate cx.audited.problem i it s x = .error e y) :
    ∃ answer, Notes x y [.energy s answer] [] ∧
      (ProblemCall.energy s answer).failure i it = some e := by
  rcases bind_eq_error.1 h with hperform | ⟨v, z, hperform, hcheck⟩
  · -- the problem failed
    obtain ⟨f, rfl, hn⟩ := perform_audit_error hperform
    exact ⟨.error f, hn, rfl⟩
  · -- the energy came out NaN
    have hz : Notes x z [.energy s (.ok v)] [] := perform_audit_ok hperform
    split at hcheck
    · next hnan =>
        cases hcheck
        exact ⟨.ok v, hz, by simp only [ProblemCall.failure, hnan, ↓reduceIte]⟩
    · cases hcheck

theorem hook_audit_ok {act : EStateM String ω α} {entry : Except String α → HookCall S} {a : α}
    (h : (Turn.hook i (Observer.audit act entry) :
      Turn (σ × List (ProblemCall S)) (ω × List (HookCall S)) S α) x = .ok a y) :
    Notes x y [] [entry (.ok a)] := by
  obtain ⟨⟨reg, p, ⟨o, log⟩, ab⟩, g⟩ := x
  simp only [Turn.hook, Observer.audit] at h
  rcases hact : act o with ⟨a', o'⟩ | ⟨m, o'⟩ <;> rw [hact] at h <;> cases h
  exact ⟨(List.append_nil _).symm, rfl⟩

theorem hook_audit_error {act : EStateM String ω α} {entry : Except String α → HookCall S}
    {e : RunError}
    (h : (Turn.hook i (Observer.audit act entry) :
      Turn (σ × List (ProblemCall S)) (ω × List (HookCall S)) S α) x = .error e y) :
    ∃ m, e = .callback i m ∧ Notes x y [] [entry (.error m)] := by
  obtain ⟨⟨reg, p, ⟨o, log⟩, ab⟩, g⟩ := x
  simp only [Turn.hook, Observer.audit] at h
  rcases hact : act o with ⟨a', o'⟩ | ⟨m, o'⟩ <;> rw [hact] at h <;> cases h
  exact ⟨m, rfl, (List.append_nil _).symm, rfl⟩

theorem report_audit_ok {cx : Setup σ ω S} {w : Walk S} {u : Unit}
    (h : Turn.report cx.audited i it w x = .ok u y) :
    Notes x y [] (if cx.observer.progress.isSome then
      [.progress it w.currentEnergy w.current (.ok ())] else []) := by
  unfold Turn.report at h
  rcases hp : cx.observer.progress with _ | f
  · simp only [Setup.audited, Observer.audited, hp, Option.map_none] at h
    obtain ⟨-, rfl⟩ := EStateM.Result.ok.inj h
    exact Notes.refl x
  · simp only [Setup.audited, Observer.audited, hp, Option.map_some] at h
    exact hook_audit_ok h

theorem report_audit_error {cx : Setup σ ω S} {w : Walk S} {e : RunError}
    (h : Turn.report cx.audited i it w x = .error e y) :
    ∃ m, e = .callback i m ∧ Notes x y [] [.progress it w.currentEnergy w.current (.error m)] := by
  unfold Turn.report at h
  rcases hp : cx.observer.progress with _ | f
  · simp only [Setup.audited, Observer.audited, hp, Option.map_none] at h
    cases h
  · simp only [Setup.audited, Observer.audited, hp, Option.map_some] at h
    exact hook_audit_error h

theorem askStop_audit_ok {cx : Setup σ ω S} {w : Walk S} {b : Bool}
    (h : Turn.askStop cx.audited i it w x = .ok b y) :
    Notes x y [] (if cx.observer.stop.isSome then
      [.stop it w.currentEnergy w.current (.ok b)] else []) ∧
      (cx.observer.stop.isSome = false → b = false) := by
  unfold Turn.askStop at h
  rcases hs : cx.observer.stop with _ | f
  · simp only [Setup.audited, Observer.audited, hs, Option.map_none] at h
    obtain ⟨rfl, rfl⟩ := EStateM.Result.ok.inj h
    exact ⟨Notes.refl x, fun _ => rfl⟩
  · simp only [Setup.audited, Observer.audited, hs, Option.map_some] at h
    exact ⟨hook_audit_ok h, fun hnone => by cases hnone⟩

theorem askStop_audit_error {cx : Setup σ ω S} {w : Walk S} {e : RunError}
    (h : Turn.askStop cx.audited i it w x = .error e y) :
    ∃ m, e = .callback i m ∧ Notes x y [] [.stop it w.currentEnergy w.current (.error m)] := by
  unfold Turn.askStop at h
  rcases hs : cx.observer.stop with _ | f
  · simp only [Setup.audited, Observer.audited, hs, Option.map_none] at h
    cases h
  · simp only [Setup.audited, Observer.audited, hs, Option.map_some] at h
    exact hook_audit_error h

end Turn

/-- The hook calls of iteration `it`, shown the walk `w`, whose stop hook, if any, answered
`stop`: the progress hook's call, then the stop hook's, each if the observer has the hook. -/
def Setup.hooksAt (cx : Setup σ ω S) (it : Nat) (w : Walk S) (stop : Bool) : List (HookCall S) :=
  (if cx.observer.progress.isSome then [.progress it w.currentEnergy w.current (.ok ())] else []) ++
    (if cx.observer.stop.isSome then [.stop it w.currentEnergy w.current (.ok stop)] else [])

namespace Turn

variable {x y : Shared (σ × List (ProblemCall S)) (ω × List (HookCall S)) S × Stream}
  {i it : Nat}

/-- The hooks of an iteration note their calls; without a stop hook the walk goes on. -/
theorem observe_audit_ok {cx : Setup σ ω S} {w : Walk S} {b : Bool}
    (h : Turn.observe cx.audited i it w x = .ok b y) :
    Notes x y [] (cx.hooksAt it w b) ∧ (cx.observer.stop.isSome = false → b = false) := by
  rw [Turn.observe_eq] at h
  obtain ⟨u, z, hreport, hstop⟩ := bind_eq_ok.1 h
  obtain ⟨hz, hb⟩ := askStop_audit_ok hstop
  exact ⟨(report_audit_ok hreport).trans hz, hb⟩

theorem observe_audit_error {cx : Setup σ ω S} {w : Walk S} {e : RunError}
    (h : Turn.observe cx.audited i it w x = .error e y) :
    ∃ H, Notes x y [] H ∧ failures i it [] H = [e] := by
  rw [Turn.observe_eq] at h
  rcases bind_eq_error.1 h with hreport | ⟨u, z, hreport, hstop⟩
  · obtain ⟨m, rfl, hn⟩ := report_audit_error hreport
    exact ⟨_, hn, rfl⟩
  · obtain ⟨m, rfl, hn⟩ := askStop_audit_error hstop
    refine ⟨_, (report_audit_ok hreport).trans hn, ?_⟩
    split <;> rfl

/-- A move asks for a neighbour of the current solution and its energy, which is no NaN; it
counts an accepted move, and an improving one only with it, and leaves the restart schedule
and the samples of the best alone. -/
theorem move_audit_ok {cx : Setup σ ω S} {w w' : Walk S}
    (h : Turn.move cx.audited i it w x = .ok w' y) :
    ∃ c v, v.isNaN = false ∧ Notes x y [.neighbor w.current (.ok c), .energy c (.ok v)] [] ∧
      w'.restarter = w.restarter ∧ w'.history = w.history ∧
      (w'.accepted = w.accepted ∧ w'.improving = w.improving ∨
        w'.accepted = w.accepted + 1 ∧ w'.improving ≤ w.improving + 1) := by
  unfold Turn.move at h
  dsimp only at h
  obtain ⟨cand, y₁, hneighbor, hrest₁⟩ := bind_eq_ok.1 h
  obtain ⟨v, y₂, heval, hrest₂⟩ := bind_eq_ok.1 hrest₁
  obtain ⟨taken, y₃, hdraw, hrest₃⟩ := bind_eq_ok.1 hrest₂
  clear h hrest₁ hrest₂
  have h₁ : Notes x y₁ [.neighbor w.current (.ok cand)] [] := perform_audit_ok hneighbor
  obtain ⟨hv, h₂⟩ := evaluate_audit_ok heval
  -- the draw changes only the stream
  obtain ⟨sh₂, g₂⟩ := y₂
  rw [draw_eq] at hdraw
  obtain ⟨-, rfl⟩ := EStateM.Result.ok.inj hdraw
  obtain ⟨rfl, rfl⟩ := EStateM.Result.ok.inj hrest₃
  have h₃ := h₁.trans h₂
  refine ⟨cand, v, hv, ⟨h₃.problem, h₃.hooks⟩, ?_, ?_, ?_⟩
  · cases taken <;> rfl
  · cases taken <;> rfl
  · cases taken
    · exact .inl ⟨rfl, rfl⟩
    · refine .inr ⟨rfl, ?_⟩
      show (if v < w.currentEnergy then w.improving + 1 else w.improving) ≤ w.improving + 1
      split <;> omega

theorem move_audit_error {cx : Setup σ ω S} {w : Walk S} {e : RunError}
    (h : Turn.move cx.audited i it w x = .error e y) :
    ∃ P, Notes x y P [] ∧ failures i it P [] = [e] := by
  unfold Turn.move at h
  dsimp only at h
  rcases bind_eq_error.1 h with hneighbor | ⟨cand, y₁, hneighbor, h⟩
  · obtain ⟨f, rfl, hn⟩ := perform_audit_error hneighbor
    exact ⟨_, hn, rfl⟩
  rcases bind_eq_error.1 h with heval | ⟨v, y₂, heval, h⟩
  · obtain ⟨answer, hn, hf⟩ := evaluate_audit_error heval
    refine ⟨_, (perform_audit_ok hneighbor).trans hn, ?_⟩
    have hcand : (ProblemCall.neighbor w.current (.ok cand) : ProblemCall S).failure i it = none :=
      rfl
    simp only [failures, List.singleton_append, List.filterMap_cons, hcand, hf,
      List.filterMap_nil, List.append_nil]
  -- the draw and the rest cannot fail
  obtain ⟨sh₂, g₂⟩ := y₂
  rcases bind_eq_error.1 h with hdraw | ⟨taken, y₃, hdraw, hpure⟩
  · rw [draw_eq] at hdraw
    cases hdraw
  · cases hpure

/-- Keeping the best counts the iteration and samples the best energy when one is due; it
leaves the current solution, the move counts, the restart schedule, the problem's bookkeeping
and the observer alone. -/
theorem keepBest_walk {σ' ω' : Type} {c : Config} {w w' : Walk S} {x' y' : Shared σ' ω' S × Stream}
    (h : (Turn.keepBest c it w : Turn σ' ω' S (Walk S)) x' = .ok w' y') :
    y'.1.problem = x'.1.problem ∧ y'.1.observer = x'.1.observer ∧
      w'.current = w.current ∧ w'.currentEnergy = w.currentEnergy ∧
      w'.accepted = w.accepted ∧ w'.improving = w.improving ∧ w'.restarter = w.restarter ∧
      w'.iterations = it + 1 ∧
      w'.history = if 0 < c.historyInterval ∧ (it + 1) % c.historyInterval = 0 then
        w.history.push w'.bestEnergy else w.history := by
  obtain ⟨sh, g⟩ := x'
  have hcond : ((c.historyInterval > 0 && (it + 1) % c.historyInterval == 0) = true) ↔
      (0 < c.historyInterval ∧ (it + 1) % c.historyInterval = 0) := by
    simp
  unfold Turn.keepBest at h
  dsimp only at h
  -- the publication, if any, touches the register only; then the count and the sample
  split at h
  · obtain ⟨u, y₁, hpublish, hrest₁⟩ := bind_eq_ok.1 h
    rw [Turn.publish_eq] at hpublish
    obtain ⟨-, rfl⟩ := EStateM.Result.ok.inj hpublish
    obtain ⟨w₁, y₂, hpure, hrest₂⟩ := bind_eq_ok.1 hrest₁
    obtain ⟨rfl, rfl⟩ := EStateM.Result.ok.inj hpure
    split at hrest₂
    · next hdue =>
        obtain ⟨rfl, rfl⟩ := EStateM.Result.ok.inj hrest₂
        rw [if_pos (hcond.1 hdue)]
        exact ⟨rfl, rfl, rfl, rfl, rfl, rfl, rfl, rfl, rfl⟩
    · next hdue =>
        obtain ⟨rfl, rfl⟩ := EStateM.Result.ok.inj hrest₂
        rw [if_neg (fun h => hdue (hcond.2 h))]
        exact ⟨rfl, rfl, rfl, rfl, rfl, rfl, rfl, rfl, rfl⟩
  · obtain ⟨w₁, y₂, hpure, hrest₂⟩ := bind_eq_ok.1 h
    obtain ⟨rfl, rfl⟩ := EStateM.Result.ok.inj hpure
    split at hrest₂
    · next hdue =>
        obtain ⟨rfl, rfl⟩ := EStateM.Result.ok.inj hrest₂
        rw [if_pos (hcond.1 hdue)]
        exact ⟨rfl, rfl, rfl, rfl, rfl, rfl, rfl, rfl, rfl⟩
    · next hdue =>
        obtain ⟨rfl, rfl⟩ := EStateM.Result.ok.inj hrest₂
        rw [if_neg (fun h => hdue (hcond.2 h))]
        exact ⟨rfl, rfl, rfl, rfl, rfl, rfl, rfl, rfl, rfl⟩

theorem keepBest_never_fails {σ' ω' : Type} {c : Config} {w : Walk S}
    {x' y' : Shared σ' ω' S × Stream} {e : RunError} :
    (Turn.keepBest c it w : Turn σ' ω' S (Walk S)) x' ≠ .error e y' := by
  obtain ⟨sh, g⟩ := x'
  intro h
  unfold Turn.keepBest at h
  dsimp only at h
  split at h
  · rcases bind_eq_error.1 h with hpublish | ⟨u, y₁, hpublish, hrest₁⟩
    · rw [Turn.publish_eq] at hpublish
      cases hpublish
    rcases bind_eq_error.1 hrest₁ with hpure | ⟨w₁, y₂, hpure, hrest₂⟩
    · cases hpure
    split at hrest₂ <;> cases hrest₂
  · rcases bind_eq_error.1 h with hpure | ⟨w₁, y₂, hpure, hrest₂⟩
    · cases hpure
    split at hrest₂ <;> cases hrest₂

/-- A restart that is not due only counts the iteration in the schedule. One that is due draws
a fresh solution and evaluates it, and offers it to the register through the schedule, which
counts the offer. The move counts and the samples of the best are left alone. -/
theorem restart_audit_ok {cx : Setup σ ω S} {w w' : Walk S}
    (h : Turn.restart cx.audited i it w x = .ok w' y) :
    w'.accepted = w.accepted ∧ w'.improving = w.improving ∧ w'.iterations = w.iterations ∧
      w'.history = w.history ∧
      (w.restarter.tick.1 = false ∧ w'.restarter = w.restarter.tick.2 ∧ Notes x y [] [] ∨
        w.restarter.tick.1 = true ∧ ∃ f v reg, v.isNaN = false ∧
          w'.restarter = (w.restarter.tick.2.offer f v reg).2.1 ∧
          Notes x y [.randomSolution (.ok f), .energy f (.ok v)] []) := by
  unfold Turn.restart at h
  generalize ht : w.restarter.tick = t at h
  obtain ⟨due, r⟩ := t
  dsimp only at h
  split at h
  · next hdue =>
      obtain ⟨rfl, rfl⟩ := EStateM.Result.ok.inj h
      have hdue : due = false := by simpa using hdue
      exact ⟨rfl, rfl, rfl, rfl, .inl ⟨by rw [hdue], rfl, Notes.refl _⟩⟩
  · next hdue =>
      have hdue : due = true := by simpa using hdue
      obtain ⟨fresh, y₁, hrandom, hrest₁⟩ := bind_eq_ok.1 h
      obtain ⟨v, y₂, heval, hrest₂⟩ := bind_eq_ok.1 hrest₁
      obtain ⟨z, y₃, hget, hrest₃⟩ := bind_eq_ok.1 hrest₂
      clear h hrest₁ hrest₂
      obtain ⟨rfl, rfl⟩ := EStateM.Result.ok.inj hget
      have h₁ : Notes x y₁ [.randomSolution (.ok fresh)] [] := perform_audit_ok hrandom
      obtain ⟨hv, h₂⟩ := evaluate_audit_ok heval
      obtain ⟨sh, g⟩ := y₂
      dsimp only at hrest₃
      -- the offer, its register written back, and the adoption
      rcases hoffer : r.offer fresh v sh.register with ⟨adopted, r', reg'⟩
      rw [hoffer] at hrest₃
      dsimp only at hrest₃
      obtain ⟨u, y₄, hset, hrest₄⟩ := bind_eq_ok.1 hrest₃
      obtain ⟨-, rfl⟩ := EStateM.Result.ok.inj hset
      have hr' : r' = (r.offer fresh v sh.register).2.1 := by rw [hoffer]
      have hn : Notes x y [.randomSolution (.ok fresh), .energy fresh (.ok v)] [] := by
        have h₃ := h₁.trans h₂
        rcases adopted with _ | ⟨s, e'⟩ <;> obtain ⟨-, rfl⟩ := EStateM.Result.ok.inj hrest₄ <;>
          exact ⟨h₃.problem, h₃.hooks⟩
      rcases adopted with _ | ⟨s, e'⟩ <;> obtain ⟨rfl, -⟩ := EStateM.Result.ok.inj hrest₄ <;>
        exact ⟨rfl, rfl, rfl, rfl, .inr ⟨by rw [hdue], fresh, v, sh.register, hv, hr', hn⟩⟩

theorem restart_audit_error {cx : Setup σ ω S} {w : Walk S} {e : RunError}
    (h : Turn.restart cx.audited i it w x = .error e y) :
    w.restarter.tick.1 = true ∧ ∃ P, Notes x y P [] ∧ failures i it P [] = [e] := by
  unfold Turn.restart at h
  generalize ht : w.restarter.tick = t at h
  obtain ⟨due, r⟩ := t
  dsimp only at h
  split at h
  · cases h
  · next hdue =>
      have hdue : due = true := by simpa using hdue
      refine ⟨by rw [hdue], ?_⟩
      rcases bind_eq_error.1 h with hrandom | ⟨fresh, y₁, hrandom, hrest₁⟩
      · obtain ⟨f, rfl, hn⟩ := perform_audit_error hrandom
        exact ⟨_, hn, rfl⟩
      rcases bind_eq_error.1 hrest₁ with heval | ⟨v, y₂, heval, hrest₂⟩
      · obtain ⟨answer, hn, hf⟩ := evaluate_audit_error heval
        refine ⟨_, (perform_audit_ok hrandom).trans hn, ?_⟩
        have hfresh : (ProblemCall.randomSolution (.ok fresh) : ProblemCall S).failure i it =
            none := rfl
        simp only [failures, List.singleton_append, List.filterMap_cons, hfresh, hf,
          List.filterMap_nil, List.append_nil]
      -- reading, offering and writing back cannot fail
      rcases bind_eq_error.1 hrest₂ with hget | ⟨z, y₃, hget, hrest₃⟩
      · cases hget
      obtain ⟨rfl, rfl⟩ := EStateM.Result.ok.inj hget
      obtain ⟨sh, g⟩ := y₂
      dsimp only at hrest₃
      rcases hoffer : r.offer fresh v sh.register with ⟨adopted, r', reg'⟩
      rw [hoffer] at hrest₃
      dsimp only at hrest₃
      rcases bind_eq_error.1 hrest₃ with hset | ⟨u, y₄, hset, hrest₄⟩
      · cases hset
      · rcases adopted with _ | ⟨s, e'⟩ <;> cases hrest₄

/-- A walk starts from a random solution and its energy, which is no NaN, with no iteration,
no move and no sample counted and its restart schedule fresh. -/
theorem begin_audit_ok {cx : Setup σ ω S} {w : Walk S}
    (h : Turn.begin cx.audited i x = .ok w y) :
    ∃ s v, v.isNaN = false ∧ Notes x y [.randomSolution (.ok s), .energy s (.ok v)] [] ∧
      w.iterations = 0 ∧ w.accepted = 0 ∧ w.improving = 0 ∧ w.history = #[] ∧
      w.restarter = Restarter.start cx.config.restartInterval := by
  unfold Turn.begin at h
  dsimp only at h
  obtain ⟨s, y₁, hrandom, hrest₁⟩ := bind_eq_ok.1 h
  obtain ⟨v, y₂, heval, hrest₂⟩ := bind_eq_ok.1 hrest₁
  obtain ⟨u, y₃, hpublish, hrest₃⟩ := bind_eq_ok.1 hrest₂
  clear h hrest₁ hrest₂
  have h₁ : Notes x y₁ [.randomSolution (.ok s)] [] := perform_audit_ok hrandom
  obtain ⟨hv, h₂⟩ := evaluate_audit_ok heval
  obtain ⟨sh, g⟩ := y₂
  rw [Turn.publish_eq] at hpublish
  obtain ⟨-, rfl⟩ := EStateM.Result.ok.inj hpublish
  have h₃ := h₁.trans h₂
  -- the controller is reserved or not; either way the walk starts afresh
  have hwalk : w.iterations = 0 ∧ w.accepted = 0 ∧ w.improving = 0 ∧ w.history = #[] ∧
      w.restarter = Restarter.start cx.config.restartInterval ∧ y.1.problem = sh.problem ∧
      y.1.observer = sh.observer := by
    split at hrest₃
    · generalize (Adaptive.Controller.reserve _ _ _ : Except String (Adaptive.Controller Float)) =
        reserved at hrest₃
      rcases reserved with message | ctl <;> dsimp only at hrest₃
      · obtain ⟨c, y₄, hthrow, -⟩ := bind_eq_ok.1 hrest₃
        cases hthrow
      · obtain ⟨c, y₄, hpure, hrest₄⟩ := bind_eq_ok.1 hrest₃
        obtain ⟨rfl, rfl⟩ := EStateM.Result.ok.inj hpure
        obtain ⟨rfl, rfl⟩ := EStateM.Result.ok.inj hrest₄
        exact ⟨rfl, rfl, rfl, rfl, rfl, rfl, rfl⟩
    · obtain ⟨c, y₄, hpure, hrest₄⟩ := bind_eq_ok.1 hrest₃
      obtain ⟨rfl, rfl⟩ := EStateM.Result.ok.inj hpure
      obtain ⟨rfl, rfl⟩ := EStateM.Result.ok.inj hrest₄
      exact ⟨rfl, rfl, rfl, rfl, rfl, rfl, rfl⟩
  obtain ⟨hit, hacc, himp, hhist, hres, hp, ho⟩ := hwalk
  exact ⟨s, v, hv, (h₃.trans (Notes.of_eq hp ho)), hit, hacc, himp, hhist, hres⟩

/-- A start fails on its one failing call, or, with every call answered, when the adaptive
controller's window cannot be reserved. -/
theorem begin_audit_error {cx : Setup σ ω S} {e : RunError}
    (h : Turn.begin cx.audited i x = .error e y) :
    (∃ P, Notes x y P [] ∧ failures i 0 P [] = [e]) ∨
      ∃ P m, Notes x y P [] ∧ failures i 0 P [] = [] ∧ cx.config.strategy = .adaptive ∧
        Adaptive.Controller.reserve cx.config.adaptive cx.config.initialTemperature
          cx.config.coolingRate = .error m ∧ e = .workerPanicked i m := by
  unfold Turn.begin at h
  dsimp only at h
  rcases bind_eq_error.1 h with hrandom | ⟨s, y₁, hrandom, hrest₁⟩
  · obtain ⟨f, rfl, hn⟩ := perform_audit_error hrandom
    exact .inl ⟨_, hn, rfl⟩
  have h₁ : Notes x y₁ [.randomSolution (.ok s)] [] := perform_audit_ok hrandom
  have hs : (ProblemCall.randomSolution (.ok s) : ProblemCall S).failure i 0 = none := rfl
  rcases bind_eq_error.1 hrest₁ with heval | ⟨v, y₂, heval, hrest₂⟩
  · obtain ⟨answer, hn, hf⟩ := evaluate_audit_error heval
    refine .inl ⟨_, h₁.trans hn, ?_⟩
    simp only [failures, List.singleton_append, List.filterMap_cons, hs, hf,
      List.filterMap_nil, List.append_nil]
  obtain ⟨hv, h₂⟩ := evaluate_audit_ok heval
  obtain ⟨sh, g⟩ := y₂
  rcases bind_eq_error.1 hrest₂ with hpublish | ⟨u, y₃, hpublish, hrest₃⟩
  · rw [Turn.publish_eq] at hpublish
    cases hpublish
  rw [Turn.publish_eq] at hpublish
  obtain ⟨-, rfl⟩ := EStateM.Result.ok.inj hpublish
  have hfail : failures i 0 [.randomSolution (.ok s), .energy s (.ok v)] ([] : List (HookCall S)) =
      [] := by
    have hvf : (ProblemCall.energy s (.ok v) : ProblemCall S).failure i 0 = none := by
      simp only [ProblemCall.failure, hv, Bool.false_eq_true, ↓reduceIte]
    simp only [failures, List.filterMap_cons, hs, hvf, List.filterMap_nil, List.append_nil]
  -- only the reservation of the controller can fail now
  split at hrest₃
  · next hadaptive =>
      generalize hres : (Adaptive.Controller.reserve _ _ _ :
        Except String (Adaptive.Controller Float)) = reserved at hrest₃
      rcases reserved with message | ctl <;> dsimp only at hrest₃
      · rcases bind_eq_error.1 hrest₃ with hthrow | ⟨c, y₄, hthrow, -⟩
        · obtain ⟨rfl, rfl⟩ := EStateM.Result.error.inj hthrow
          exact .inr ⟨_, message, (h₁.trans h₂).trans (Notes.of_eq rfl rfl), hfail, hadaptive,
            hres, rfl⟩
        · cases hthrow
      · rcases bind_eq_error.1 hrest₃ with hpure | ⟨c, y₄, hpure, hrest₄⟩
        · cases hpure
        · cases hrest₄
  · rcases bind_eq_error.1 hrest₃ with hpure | ⟨c, y₄, hpure, hrest₄⟩
    · cases hpure
    · cases hrest₄

end Turn

end Annealing
