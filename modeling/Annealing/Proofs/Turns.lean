import Annealing.Proofs.Recording
import Annealing.Proofs.Register

/-!
# What a turn does to the register and the log

The pieces of a worker's turn, run by a logging problem, read off the code once each: which
evaluations they log, what they offer to the register, and what they leave of the walk. A
failing piece logs at most one evaluation, which is NaN, and changes nothing else that is
tracked here. Later proofs peel a turn into these pieces with `bind_eq_ok` and
`bind_eq_error` and never unfold them again.
-/

namespace Annealing

open Annealing.Random

variable {σ ω S α β : Type}

/-! ## Peeling a computation -/

theorem bind_eq_ok {ε A : Type} {m : EStateM ε A α} {k : α → EStateM ε A β} {x : A} {b : β}
    {y : A} : (m >>= k) x = .ok b y ↔ ∃ a z, m x = .ok a z ∧ k a z = .ok b y := by
  show EStateM.bind m k x = _ ↔ _
  unfold EStateM.bind
  rcases m x with ⟨a, z⟩ | ⟨e, z⟩ <;> dsimp only
  · constructor
    · intro h
      exact ⟨a, z, rfl, h⟩
    · rintro ⟨a', z', h₁, h₂⟩
      cases h₁
      exact h₂
  · constructor
    · intro h
      cases h
    · rintro ⟨_, _, h₁, _⟩
      cases h₁

theorem bind_eq_error {ε A : Type} {m : EStateM ε A α} {k : α → EStateM ε A β} {x : A} {e : ε}
    {y : A} : (m >>= k) x = .error e y ↔
      m x = .error e y ∨ ∃ a z, m x = .ok a z ∧ k a z = .error e y := by
  show EStateM.bind m k x = _ ↔ _
  unfold EStateM.bind
  rcases m x with ⟨a, z⟩ | ⟨e', z⟩ <;> dsimp only
  · constructor
    · intro h
      exact .inr ⟨a, z, rfl, h⟩
    · rintro (h | ⟨a', z', h₁, h₂⟩)
      · cases h
      · cases h₁
        exact h₂
  · constructor
    · intro h
      cases h
      exact .inl rfl
    · rintro (h | ⟨_, _, h₁, _⟩)
      · cases h
        rfl
      · cases h₁

/-! ## The pieces -/

/-- Two states of a logging run with the same register and the same log. -/
def Untracked (x y : Shared (σ × List (S × Float)) ω S × Stream) : Prop :=
  y.1.register = x.1.register ∧ y.1.log = x.1.log

/-- A later state of a logging run with the same register, whose log has grown by NaN
energies only: what a failing piece leaves. -/
def Quiet (x y : Shared (σ × List (S × Float)) ω S × Stream) : Prop :=
  y.1.register = x.1.register ∧ ∃ extra, y.1.log = x.1.log ++ extra ∧
    ∀ q ∈ extra, q.2.isNaN = true

theorem Untracked.quiet {x y : Shared (σ × List (S × Float)) ω S × Stream} (h : Untracked x y) :
    Quiet x y :=
  ⟨h.1, [], by rw [h.2, List.append_nil], by simp⟩

theorem Untracked.trans {x y z : Shared (σ × List (S × Float)) ω S × Stream}
    (hxy : Untracked x y) (hyz : Untracked y z) : Untracked x z :=
  ⟨hyz.1.trans hxy.1, hyz.2.trans hxy.2⟩

theorem Untracked.trans_quiet {x y z : Shared (σ × List (S × Float)) ω S × Stream}
    (hxy : Untracked x y) (hyz : Quiet y z) : Quiet x z := by
  obtain ⟨hreg, extra, hlog, hnan⟩ := hyz
  exact ⟨hreg.trans hxy.1, extra, by rw [hlog, hxy.2], hnan⟩

/-- Two walks with the same current and best solutions and energies. -/
def Walk.SameSolutions (w w' : Walk S) : Prop :=
  w'.current = w.current ∧ w'.currentEnergy = w.currentEnergy ∧ w'.best = w.best ∧
    w'.bestEnergy = w.bestEnergy

namespace Turn

variable {x y : Shared (σ × List (S × Float)) ω S × Stream}

theorem perform_lift_ok {i : Nat} {act : Eval σ α} {a : α}
    (h : Turn.perform i (Eval.lift act) x = .ok a y) : Untracked x y := by
  obtain ⟨⟨reg, ⟨p, log⟩, obs, ab⟩, g⟩ := x
  simp only [Turn.perform, Eval.lift] at h
  rcases hact : act (p, g) with ⟨a', ⟨p', g'⟩⟩ | ⟨f, ⟨p', g'⟩⟩ <;> rw [hact] at h <;> cases h
  exact ⟨rfl, rfl⟩

theorem perform_lift_error {i : Nat} {act : Eval σ α} {e : RunError}
    (h : Turn.perform i (Eval.lift act) x = .error e y) : Untracked x y := by
  obtain ⟨⟨reg, ⟨p, log⟩, obs, ab⟩, g⟩ := x
  simp only [Turn.perform, Eval.lift] at h
  rcases hact : act (p, g) with ⟨a', ⟨p', g'⟩⟩ | ⟨f, ⟨p', g'⟩⟩ <;> rw [hact] at h <;> cases h
  exact ⟨rfl, rfl⟩

theorem evaluate_ok {pr : Problem σ S} {i it : Nat} {s : S} {e : Float}
    (h : Turn.evaluate pr.recording i it s x = .ok e y) :
    e.isNaN = false ∧ y.1.register = x.1.register ∧ y.1.log = x.1.log ++ [(s, e)] := by
  obtain ⟨⟨reg, ⟨p, log⟩, obs, ab⟩, g⟩ := x
  obtain ⟨e', z, hperform, hcheck⟩ := bind_eq_ok.1 h
  simp only [Turn.perform, Problem.recording, bind, EStateM.bind, Eval.lift] at hperform
  rcases hact : pr.energy s (p, g) with ⟨v, ⟨p', g'⟩⟩ | ⟨f, ⟨p', g'⟩⟩ <;>
    rw [hact] at hperform <;> cases hperform
  -- the NaN check passed
  split at hcheck
  · cases hcheck
  · next hnan =>
      cases hcheck
      exact ⟨by simpa using hnan, rfl, rfl⟩

/-- A failed evaluation logs at most one energy, a NaN, and changes nothing else. -/
theorem evaluate_error {pr : Problem σ S} {i it : Nat} {s : S} {err : RunError}
    (h : Turn.evaluate pr.recording i it s x = .error err y) : Quiet x y := by
  obtain ⟨⟨reg, ⟨p, log⟩, obs, ab⟩, g⟩ := x
  rcases bind_eq_error.1 h with hperform | ⟨e, z, hperform, hcheck⟩
  · -- the problem failed: nothing logged
    simp only [Turn.perform, Problem.recording, bind, EStateM.bind, Eval.lift] at hperform
    rcases hact : pr.energy s (p, g) with ⟨v, ⟨p', g'⟩⟩ | ⟨f, ⟨p', g'⟩⟩ <;>
      rw [hact] at hperform <;> cases hperform
    exact ⟨rfl, [], by simp [Shared.log], by simp⟩
  · -- a NaN energy was logged, then refused
    simp only [Turn.perform, Problem.recording, bind, EStateM.bind, Eval.lift] at hperform
    rcases hact : pr.energy s (p, g) with ⟨v, ⟨p', g'⟩⟩ | ⟨f, ⟨p', g'⟩⟩ <;>
      rw [hact] at hperform <;> cases hperform
    split at hcheck
    · next hnan =>
        cases hcheck
        exact ⟨rfl, [(s, e)], rfl, by simpa using hnan⟩
    · cases hcheck

theorem hook_ok {i : Nat} {act : EStateM String ω α} {a : α}
    (h : (Turn.hook i act : Turn (σ × List (S × Float)) ω S α) x = .ok a y) : Untracked x y := by
  obtain ⟨sh, g⟩ := x
  simp only [Turn.hook] at h
  rcases hact : act sh.observer with ⟨a', o⟩ | ⟨m, o⟩ <;> rw [hact] at h <;> cases h
  exact ⟨rfl, rfl⟩

theorem hook_error {i : Nat} {act : EStateM String ω α} {e : RunError}
    (h : (Turn.hook i act : Turn (σ × List (S × Float)) ω S α) x = .error e y) :
    Untracked x y := by
  obtain ⟨sh, g⟩ := x
  simp only [Turn.hook] at h
  rcases hact : act sh.observer with ⟨a', o⟩ | ⟨m, o⟩ <;> rw [hact] at h <;> cases h
  exact ⟨rfl, rfl⟩

theorem draw_eq (f : Stream → α × Stream) (sh : Shared σ ω S) (g : Stream) :
    (Turn.draw f : Turn σ ω S α) (sh, g) = .ok (f g).1 (sh, (f g).2) :=
  rfl

theorem Acceptance.decide_of_le {current candidate : Float} (t : Float) (g : Stream)
    (h : candidate ≤ current) : Acceptance.decide current candidate t g = (true, g) := by
  simp [Acceptance.decide, h]

/-- A move evaluates one neighbour and logs it; it takes the neighbour, or keeps the current
solution and then the neighbour is not at or below it. The best solution and the restart
schedule are left alone. -/
theorem move_ok {cx : Setup σ ω S} {i it : Nat} {w w' : Walk S}
    (h : Turn.move cx.recording i it w x = .ok w' y) :
    y.1.register = x.1.register ∧ w'.best = w.best ∧ w'.bestEnergy = w.bestEnergy ∧
      w'.restarter = w.restarter ∧
      ∃ cand c, c.isNaN = false ∧ y.1.log = x.1.log ++ [(cand, c)] ∧
        (w'.current = cand ∧ w'.currentEnergy = c ∨
          w'.current = w.current ∧ w'.currentEnergy = w.currentEnergy ∧
            ¬ c ≤ w.currentEnergy) := by
  unfold Turn.move at h
  dsimp only at h
  obtain ⟨cand, y₁, hneighbor, hrest₁⟩ := bind_eq_ok.1 h
  obtain ⟨c, y₂, heval, hrest₂⟩ := bind_eq_ok.1 hrest₁
  obtain ⟨taken, y₃, hdraw, hrest₃⟩ := bind_eq_ok.1 hrest₂
  clear h hrest₁ hrest₂
  have h₁ := perform_lift_ok hneighbor
  obtain ⟨hc, hreg₂, hlog₂⟩ := evaluate_ok heval
  -- the draw changes only the stream; a neighbour at or below the current is taken
  obtain ⟨sh₂, g₂⟩ := y₂
  have hdraw' : y₃.1 = sh₂ ∧ (c ≤ w.currentEnergy → taken = true) := by
    simp only [Turn.draw] at hdraw
    cases hdraw
    exact ⟨rfl, fun hle => by rw [Acceptance.decide_of_le _ _ hle]⟩
  have hreg : y₃.1.register = x.1.register := by rw [hdraw'.1]; exact hreg₂.trans h₁.1
  have hlog : y₃.1.log = x.1.log ++ [(cand, c)] := by rw [hdraw'.1]; exact hlog₂.trans (by rw [h₁.2])
  clear hdraw
  obtain ⟨rfl, rfl⟩ := EStateM.Result.ok.inj hrest₃
  cases taken
  · exact ⟨hreg, rfl, rfl, rfl, cand, c, hc, hlog,
      .inr ⟨rfl, rfl, fun hle => Bool.false_ne_true (hdraw'.2 hle)⟩⟩
  · exact ⟨hreg, rfl, rfl, rfl, cand, c, hc, hlog, .inl ⟨rfl, rfl⟩⟩

theorem move_error {cx : Setup σ ω S} {i it : Nat} {w : Walk S} {e : RunError}
    (h : Turn.move cx.recording i it w x = .error e y) : Quiet x y := by
  unfold Turn.move at h
  dsimp only at h
  rcases bind_eq_error.1 h with hneighbor | ⟨cand, y₁, hneighbor, h⟩
  · exact (perform_lift_error hneighbor).quiet
  rcases bind_eq_error.1 h with heval | ⟨c, y₂, heval, h⟩
  · exact (perform_lift_ok hneighbor).trans_quiet (evaluate_error heval)
  -- the draw and the rest cannot fail
  obtain ⟨sh₂, g₂⟩ := y₂
  rcases bind_eq_error.1 h with hdraw | ⟨taken, y₃, hdraw, hpure⟩
  · rw [draw_eq] at hdraw
    cases hdraw
  · cases hpure

/-- Keeping the best: a current solution strictly below the best becomes the best and is
published; otherwise the best stays. The current solution, the restart schedule and the log
are left alone. -/
theorem keepBest_ok {c : Config} {it : Nat} {w w' : Walk S}
    (h : (Turn.keepBest c it w : Turn (σ × List (S × Float)) ω S (Walk S)) x = .ok w' y) :
    y.1.log = x.1.log ∧ w'.current = w.current ∧ w'.currentEnergy = w.currentEnergy ∧
      w'.restarter = w.restarter ∧
      (w.currentEnergy < w.bestEnergy ∧ w'.best = w.current ∧ w'.bestEnergy = w.currentEnergy ∧
          y.1.register = (if w.currentEnergy ≤ x.1.register.bestEnergy then
            (x.1.register.offer w.currentEnergy w.current).2 else x.1.register) ∨
        ¬ w.currentEnergy < w.bestEnergy ∧ w'.best = w.best ∧ w'.bestEnergy = w.bestEnergy ∧
          y.1.register = x.1.register) := by
  obtain ⟨sh, g⟩ := x
  unfold Turn.keepBest at h
  dsimp only at h
  split at h
  · next hlt =>
      -- the publication, then the count and the sample, which touch neither solution
      obtain ⟨u, y₁, hpublish, hrest₁⟩ := bind_eq_ok.1 h
      rw [publish_eq] at hpublish
      obtain ⟨-, rfl⟩ := EStateM.Result.ok.inj hpublish
      obtain ⟨w₁, y₂, hpure, hrest₂⟩ := bind_eq_ok.1 hrest₁
      obtain ⟨rfl, rfl⟩ := EStateM.Result.ok.inj hpure
      split at hrest₂ <;> obtain ⟨rfl, rfl⟩ := EStateM.Result.ok.inj hrest₂ <;>
        exact ⟨rfl, rfl, rfl, rfl, .inl ⟨hlt, rfl, rfl, rfl⟩⟩
  · next hlt =>
      obtain ⟨w₁, y₂, hpure, hrest₂⟩ := bind_eq_ok.1 h
      obtain ⟨rfl, rfl⟩ := EStateM.Result.ok.inj hpure
      split at hrest₂ <;> obtain ⟨rfl, rfl⟩ := EStateM.Result.ok.inj hrest₂ <;>
        exact ⟨rfl, rfl, rfl, rfl, .inr ⟨hlt, rfl, rfl, rfl⟩⟩

theorem keepBest_error {c : Config} {it : Nat} {w : Walk S} {e : RunError}
    (h : (Turn.keepBest c it w : Turn (σ × List (S × Float)) ω S (Walk S)) x = .error e y) :
    False := by
  obtain ⟨sh, g⟩ := x
  unfold Turn.keepBest at h
  dsimp only at h
  split at h
  · rcases bind_eq_error.1 h with hpublish | ⟨u, y₁, hpublish, hrest₁⟩
    · rw [publish_eq] at hpublish
      cases hpublish
    rcases bind_eq_error.1 hrest₁ with hpure | ⟨w₁, y₂, hpure, hrest₂⟩
    · cases hpure
    split at hrest₂ <;> cases hrest₂
  · rcases bind_eq_error.1 h with hpure | ⟨w₁, y₂, hpure, hrest₂⟩
    · cases hpure
    split at hrest₂ <;> cases hrest₂

theorem observe_ok {cx : Setup σ ω S} {i it : Nat} {w : Walk S} {stop : Bool}
    (h : Turn.observe cx.recording i it w x = .ok stop y) : Untracked x y := by
  unfold Turn.observe at h
  -- the progress hook, if any, then the stop hook, if any
  rcases hp : cx.recording.observer.progress with _ | f <;>
    rcases hs : cx.recording.observer.stop with _ | g <;> rw [hp, hs] at h <;> dsimp only at h
  · obtain ⟨-, rfl⟩ := EStateM.Result.ok.inj h
    exact ⟨rfl, rfl⟩
  · exact hook_ok h
  · obtain ⟨u, y₁, hprogress, hrest⟩ := bind_eq_ok.1 h
    obtain ⟨-, rfl⟩ := EStateM.Result.ok.inj hrest
    exact hook_ok hprogress
  · obtain ⟨u, y₁, hprogress, hrest⟩ := bind_eq_ok.1 h
    exact (hook_ok hprogress).trans (hook_ok hrest)

theorem observe_error {cx : Setup σ ω S} {i it : Nat} {w : Walk S} {e : RunError}
    (h : Turn.observe cx.recording i it w x = .error e y) : Untracked x y := by
  unfold Turn.observe at h
  rcases hp : cx.recording.observer.progress with _ | f <;>
    rcases hs : cx.recording.observer.stop with _ | g <;> rw [hp, hs] at h <;> dsimp only at h
  · cases h
  · exact hook_error h
  · rcases bind_eq_error.1 h with hprogress | ⟨u, y₁, hprogress, hrest⟩
    · exact hook_error hprogress
    · cases hrest
  · rcases bind_eq_error.1 h with hprogress | ⟨u, y₁, hprogress, hrest⟩
    · exact hook_error hprogress
    · exact (hook_ok hprogress).trans (hook_error hrest)

end Turn

namespace Restarter

theorem offer_register (r : Restarter) (s : S) (e : Float) (reg : Register S) :
    (r.offer s e reg).2.2 = (reg.offer e s).2 := by
  unfold Restarter.offer
  rcases reg.offer e s with ⟨_ | _, reg'⟩ <;> rfl

theorem offer_adopted (r : Restarter) (s : S) (e : Float) (reg : Register S) :
    (r.offer s e reg).1 = if (reg.offer e s).1 then some (s, e) else none := by
  unfold Restarter.offer
  rcases reg.offer e s with ⟨_ | _, reg'⟩ <;> rfl

end Restarter

namespace Turn

variable {x y : Shared (σ × List (S × Float)) ω S × Stream}

/-- A restart that is not due changes nothing tracked here. One that is due evaluates a fresh
solution, logs it and offers it to the register; the walk adopts it as current and best
exactly when the register takes it. -/
theorem restart_ok {cx : Setup σ ω S} {i it : Nat} {w w' : Walk S}
    (h : Turn.restart cx.recording i it w x = .ok w' y) :
    Untracked x y ∧ w.SameSolutions w' ∨
      ∃ fresh f, f.isNaN = false ∧ y.1.log = x.1.log ++ [(fresh, f)] ∧
        y.1.register = (x.1.register.offer f fresh).2 ∧
        ((x.1.register.offer f fresh).1 = true ∧ w'.current = fresh ∧ w'.currentEnergy = f ∧
            w'.best = fresh ∧ w'.bestEnergy = f ∨
          (x.1.register.offer f fresh).1 = false ∧ w.SameSolutions w') := by
  unfold Turn.restart at h
  generalize w.restarter.tick = t at h
  obtain ⟨due, r⟩ := t
  dsimp only at h
  split at h
  · obtain ⟨rfl, rfl⟩ := EStateM.Result.ok.inj h
    exact .inl ⟨⟨rfl, rfl⟩, rfl, rfl, rfl, rfl⟩
  · obtain ⟨fresh, y₁, hrandom, hrest₁⟩ := bind_eq_ok.1 h
    obtain ⟨f, y₂, heval, hrest₂⟩ := bind_eq_ok.1 hrest₁
    obtain ⟨z, y₃, hget, hrest₃⟩ := bind_eq_ok.1 hrest₂
    clear h hrest₁ hrest₂
    obtain ⟨rfl, rfl⟩ := EStateM.Result.ok.inj hget
    have h₁ := perform_lift_ok hrandom
    obtain ⟨hf, hreg₂, hlog₂⟩ := evaluate_ok heval
    obtain ⟨sh, g⟩ := y₂
    dsimp only at hrest₃
    -- the offer, its register written back, and the adoption
    have hadopted := r.offer_adopted fresh f sh.register
    have hregister := r.offer_register fresh f sh.register
    rcases hoffer : r.offer fresh f sh.register with ⟨adopted, r', reg'⟩
    rw [hoffer] at hrest₃ hadopted hregister
    dsimp only at hrest₃ hadopted hregister
    obtain ⟨u, y₄, hset, hrest₄⟩ := bind_eq_ok.1 hrest₃
    obtain ⟨-, rfl⟩ := EStateM.Result.ok.inj hset
    have hy : y = ({ sh with register := reg' }, g) := by
      rcases adopted with _ | ⟨s, v⟩ <;> exact (EStateM.Result.ok.inj hrest₄).2.symm
    subst hy
    have hsh : sh.register = x.1.register := hreg₂.trans h₁.1
    refine .inr ⟨fresh, f, hf, hlog₂.trans (by rw [h₁.2]), by rw [← hsh, hregister], ?_⟩
    rw [← hsh]
    cases htake : (sh.register.offer f fresh).1
    · rw [htake] at hadopted
      subst hadopted
      obtain ⟨rfl, -⟩ := EStateM.Result.ok.inj hrest₄
      exact .inr ⟨rfl, rfl, rfl, rfl, rfl⟩
    · rw [htake] at hadopted
      subst hadopted
      obtain ⟨rfl, -⟩ := EStateM.Result.ok.inj hrest₄
      exact .inl ⟨rfl, rfl, rfl, rfl, rfl⟩

/-- A walk starts at a fresh solution, evaluated, logged and published; it is both current and
best. -/
theorem begin_ok {cx : Setup σ ω S} {i : Nat} {w : Walk S}
    (h : Turn.begin cx.recording i x = .ok w y) :
    w.current = w.best ∧ w.currentEnergy = w.bestEnergy ∧ w.bestEnergy.isNaN = false ∧
      y.1.log = x.1.log ++ [(w.best, w.bestEnergy)] ∧
      y.1.register = if w.bestEnergy ≤ x.1.register.bestEnergy then
        (x.1.register.offer w.bestEnergy w.best).2 else x.1.register := by
  unfold Turn.begin at h
  dsimp only at h
  obtain ⟨s, y₁, hrandom, hrest₁⟩ := bind_eq_ok.1 h
  obtain ⟨e, y₂, heval, hrest₂⟩ := bind_eq_ok.1 hrest₁
  obtain ⟨u, y₃, hpublish, hrest₃⟩ := bind_eq_ok.1 hrest₂
  clear h hrest₁ hrest₂
  have h₁ := perform_lift_ok hrandom
  obtain ⟨he, hreg₂, hlog₂⟩ := evaluate_ok heval
  obtain ⟨sh, g⟩ := y₂
  rw [publish_eq] at hpublish
  obtain ⟨-, rfl⟩ := EStateM.Result.ok.inj hpublish
  -- the controller is reserved or not; either way the walk starts at `s`
  have hwalk : w.current = s ∧ w.currentEnergy = e ∧ w.best = s ∧ w.bestEnergy = e ∧
      y = ({ sh with register := if e ≤ sh.register.bestEnergy then (sh.register.offer e s).2
        else sh.register }, g) := by
    split at hrest₃
    · generalize (Adaptive.Controller.reserve _ _ _ : Except String (Adaptive.Controller Float)) =
        reserved at hrest₃
      rcases reserved with message | ctl <;> dsimp only at hrest₃
      · obtain ⟨c, y₄, hthrow, -⟩ := bind_eq_ok.1 hrest₃
        cases hthrow
      · obtain ⟨c, y₄, hpure, hrest₄⟩ := bind_eq_ok.1 hrest₃
        obtain ⟨rfl, rfl⟩ := EStateM.Result.ok.inj hpure
        obtain ⟨rfl, rfl⟩ := EStateM.Result.ok.inj hrest₄
        exact ⟨rfl, rfl, rfl, rfl, rfl⟩
    · obtain ⟨c, y₄, hpure, hrest₄⟩ := bind_eq_ok.1 hrest₃
      obtain ⟨rfl, rfl⟩ := EStateM.Result.ok.inj hpure
      obtain ⟨rfl, rfl⟩ := EStateM.Result.ok.inj hrest₄
      exact ⟨rfl, rfl, rfl, rfl, rfl⟩
  obtain ⟨hcur, hcurE, hbest, hbestE, rfl⟩ := hwalk
  have hsh : sh.register = x.1.register := hreg₂.trans h₁.1
  refine ⟨hcur.trans hbest.symm, hcurE.trans hbestE.symm, hbestE ▸ he, ?_, ?_⟩
  · rw [hbest, hbestE]
    exact hlog₂.trans (by rw [h₁.2])
  · rw [hbest, hbestE, ← hsh]

/-- A start fails before its publication, or when the adaptive controller cannot be reserved,
after it. -/
theorem begin_error {cx : Setup σ ω S} {i : Nat} {e : RunError}
    (h : Turn.begin cx.recording i x = .error e y) :
    Quiet x y ∨ ∃ s v, v.isNaN = false ∧ y.1.log = x.1.log ++ [(s, v)] ∧
      y.1.register = if v ≤ x.1.register.bestEnergy then
        (x.1.register.offer v s).2 else x.1.register := by
  unfold Turn.begin at h
  dsimp only at h
  rcases bind_eq_error.1 h with hrandom | ⟨s, y₁, hrandom, hrest₁⟩
  · exact .inl (perform_lift_error hrandom).quiet
  rcases bind_eq_error.1 hrest₁ with heval | ⟨v, y₂, heval, hrest₂⟩
  · exact .inl ((perform_lift_ok hrandom).trans_quiet (evaluate_error heval))
  have h₁ := perform_lift_ok hrandom
  obtain ⟨hv, hreg₂, hlog₂⟩ := evaluate_ok heval
  obtain ⟨sh, g⟩ := y₂
  rcases bind_eq_error.1 hrest₂ with hpublish | ⟨u, y₃, hpublish, hrest₃⟩
  · rw [publish_eq] at hpublish
    cases hpublish
  rw [publish_eq] at hpublish
  obtain ⟨-, rfl⟩ := EStateM.Result.ok.inj hpublish
  -- only the reservation of the controller can fail now
  have hy : y = ({ sh with register := if v ≤ sh.register.bestEnergy then (sh.register.offer v s).2
      else sh.register }, g) := by
    split at hrest₃
    · generalize (Adaptive.Controller.reserve _ _ _ : Except String (Adaptive.Controller Float)) =
        reserved at hrest₃
      rcases reserved with message | ctl <;> dsimp only at hrest₃
      · rcases bind_eq_error.1 hrest₃ with hthrow | ⟨c, y₄, hthrow, -⟩
        · exact (EStateM.Result.error.inj hthrow).2.symm
        · cases hthrow
      · rcases bind_eq_error.1 hrest₃ with hpure | ⟨c, y₄, hpure, hrest₄⟩
        · cases hpure
        · cases hrest₄
    · rcases bind_eq_error.1 hrest₃ with hpure | ⟨c, y₄, hpure, hrest₄⟩
      · cases hpure
      · cases hrest₄
  subst hy
  have hsh : sh.register = x.1.register := hreg₂.trans h₁.1
  refine .inr ⟨s, v, hv, hlog₂.trans (by rw [h₁.2]), ?_⟩
  rw [← hsh]

theorem restart_error {cx : Setup σ ω S} {i it : Nat} {w : Walk S} {e : RunError}
    (h : Turn.restart cx.recording i it w x = .error e y) : Quiet x y := by
  unfold Turn.restart at h
  generalize w.restarter.tick = t at h
  obtain ⟨due, r⟩ := t
  dsimp only at h
  split at h
  · cases h
  · rcases bind_eq_error.1 h with hrandom | ⟨fresh, y₁, hrandom, hrest₁⟩
    · exact (perform_lift_error hrandom).quiet
    rcases bind_eq_error.1 hrest₁ with heval | ⟨f, y₂, heval, hrest₂⟩
    · exact (perform_lift_ok hrandom).trans_quiet (evaluate_error heval)
    -- reading, offering and writing back cannot fail
    rcases bind_eq_error.1 hrest₂ with hget | ⟨z, y₃, hget, hrest₃⟩
    · cases hget
    obtain ⟨rfl, rfl⟩ := EStateM.Result.ok.inj hget
    obtain ⟨sh, g⟩ := y₂
    dsimp only at hrest₃
    rcases hoffer : r.offer fresh f sh.register with ⟨adopted, r', reg'⟩
    rw [hoffer] at hrest₃
    dsimp only at hrest₃
    rcases bind_eq_error.1 hrest₃ with hset | ⟨u, y₄, hset, hrest₄⟩
    · cases hset
    · rcases adopted with _ | ⟨s, v⟩ <;> cases hrest₄

end Turn

end Annealing
