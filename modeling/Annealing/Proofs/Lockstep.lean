import Annealing.Worker

/-!
# Turns in lockstep

A worker's turn reads the shared state in few places: the problem's operations read the
bookkeeping, the hooks read the observer's state, the abort flag and the cancel token are read
before each iteration, and a restart reads the register. Elsewhere it only writes. So two runs
of the same turn, from states that agree on what the turn reads, end alike: both fail with the
same error, or both return the same value, with the worker's stream the same.

`Lockstep Q R m₁ m₂` says this of two computations: from states related by `Q` they end with
values related by `R`, or with the same error, in states related by `Q` again. It is closed
under `pure`, `bind` and `throw` (`Lockstep.ret`, `Lockstep.bind`, `Lockstep.fail`), so a
turn built from primitives in lockstep is in lockstep. `Setup.Lockstep Q cx₁ cx₂` collects
what the primitives of two setups need; from it every turn but the restart, which reads the
register, is in lockstep (`Setup.Lockstep.advance`, `Setup.Lockstep.begin`).

Two uses are made of it. A run whose problem also keeps a log of every energy it computes is
the same run as the plain one, seen without the log. And with restarts off, a worker walks the
same way whatever the other workers do to the register.
-/

namespace Annealing

open Annealing.Random

/-- Two results alike: both values, related by `R`, or both failures with the same error, in
states related by `Q`. -/
def EndsAlike {ε A B α β : Type} (Q : A → B → Prop) (R : α → β → Prop) :
    EStateM.Result ε A α → EStateM.Result ε B β → Prop
  | .ok a y₁, .ok b y₂ => R a b ∧ Q y₁ y₂
  | .error e₁ y₁, .error e₂ y₂ => e₁ = e₂ ∧ Q y₁ y₂
  | _, _ => False

/-- Two computations in lockstep: from states related by `Q` they end alike. -/
def Lockstep {ε A B α β : Type} (Q : A → B → Prop) (R : α → β → Prop)
    (m₁ : EStateM ε A α) (m₂ : EStateM ε B β) : Prop :=
  ∀ x₁ x₂, Q x₁ x₂ → EndsAlike Q R (m₁ x₁) (m₂ x₂)

namespace Lockstep

variable {ε A B α β γ δ : Type} {Q : A → B → Prop} {R : α → β → Prop}

theorem ret {a : α} {b : β} (h : R a b) :
    Lockstep Q R (pure a : EStateM ε A α) (pure b : EStateM ε B β) :=
  fun _ _ hq => ⟨h, hq⟩

theorem fail (e : ε) : Lockstep Q R (throw e : EStateM ε A α) (throw e : EStateM ε B β) :=
  fun _ _ hq => ⟨rfl, hq⟩

theorem bind {m₁ : EStateM ε A α} {m₂ : EStateM ε B β} {k₁ : α → EStateM ε A γ}
    {k₂ : β → EStateM ε B δ} {R' : γ → δ → Prop} (hm : Lockstep Q R m₁ m₂)
    (hk : ∀ a b, R a b → Lockstep Q R' (k₁ a) (k₂ b)) :
    Lockstep Q R' (m₁ >>= k₁) (m₂ >>= k₂) := by
  intro x₁ x₂ hq
  have h := hm x₁ x₂ hq
  show EndsAlike Q R' (EStateM.bind m₁ k₁ x₁) (EStateM.bind m₂ k₂ x₂)
  unfold EStateM.bind
  revert h
  -- the first computations end alike; a value goes on to the continuations
  rcases m₁ x₁ with ⟨a, y₁⟩ | ⟨e₁, y₁⟩ <;> rcases m₂ x₂ with ⟨b, y₂⟩ | ⟨e₂, y₂⟩
  · exact fun h => hk a b h.1 y₁ y₂ h.2
  · exact fun h => (h : False).elim
  · exact fun h => (h : False).elim
  · exact id

theorem get : Lockstep Q Q (MonadState.get : EStateM ε A A) (MonadState.get : EStateM ε B B) :=
  fun _ _ hq => ⟨hq, hq⟩

theorem set {y₁ : A} {y₂ : B} (h : Q y₁ y₂) :
    Lockstep Q Eq (MonadState.set y₁ : EStateM ε A PUnit) (MonadState.set y₂ : EStateM ε B PUnit) :=
  fun _ _ _ => ⟨rfl, h⟩

theorem ok_of_right {m₁ : EStateM ε A α} {m₂ : EStateM ε B α} (h : Lockstep Q Eq m₁ m₂)
    {x₁ : A} {x₂ : B} (hq : Q x₁ x₂) {a : α} {y₂ : B} (hm : m₂ x₂ = .ok a y₂) :
    ∃ y₁, m₁ x₁ = .ok a y₁ ∧ Q y₁ y₂ := by
  have h := h x₁ x₂ hq
  rw [hm] at h
  revert h
  rcases m₁ x₁ with ⟨b, y₁⟩ | ⟨e, y₁⟩
  · rintro ⟨rfl, hy⟩
    exact ⟨y₁, rfl, hy⟩
  · exact fun h => (h : False).elim

/-- Whatever the left computation is known to return, the related values have it. -/
theorem and_left {m₁ : EStateM ε A α} {m₂ : EStateM ε B β} (h : Lockstep Q R m₁ m₂)
    {P : α → Prop} (hP : ∀ x a y, m₁ x = .ok a y → P a) :
    Lockstep Q (fun a b => R a b ∧ P a) m₁ m₂ := by
  intro x₁ x₂ hq
  have h := h x₁ x₂ hq
  revert h
  rcases hm : m₁ x₁ with ⟨a, y₁⟩ | ⟨e₁, y₁⟩ <;> rcases m₂ x₂ with ⟨b, y₂⟩ | ⟨e₂, y₂⟩
  · exact fun h => ⟨⟨h.1, hP x₁ a y₁ hm⟩, h.2⟩
  · exact fun h => (h : False).elim
  · exact fun h => (h : False).elim
  · exact id

theorem mono {m₁ : EStateM ε A α} {m₂ : EStateM ε B β} {R' : α → β → Prop}
    (h : Lockstep Q R m₁ m₂) (hR : ∀ a b, R a b → R' a b) : Lockstep Q R' m₁ m₂ := by
  intro x₁ x₂ hq
  have h := h x₁ x₂ hq
  revert h
  rcases m₁ x₁ with ⟨a, y₁⟩ | ⟨e₁, y₁⟩ <;> rcases m₂ x₂ with ⟨b, y₂⟩ | ⟨e₂, y₂⟩
  · exact fun h => ⟨hR a b h.1, h.2⟩
  · exact id
  · exact id
  · exact id

end Lockstep

/-! ## The turns of two setups -/

namespace Setup

variable {σ₁ σ₂ ω S : Type}

/-- What two setups need for their turns to run in lockstep under `Q`: the same configuration,
observer, status and cancel watch; problem operations, hooks, draws and publications in
lockstep; and shared states whose abort flags and cancel tokens read alike. -/
structure Lockstep (Q : Shared σ₁ ω S × Stream → Shared σ₂ ω S × Stream → Prop)
    (cx₁ : Setup σ₁ ω S) (cx₂ : Setup σ₂ ω S) : Prop where
  config : cx₁.config = cx₂.config
  observer : cx₁.observer = cx₂.observer
  watchCancel : cx₁.watchCancel = cx₂.watchCancel
  status : cx₁.status = cx₂.status
  randomSolution : ∀ i, Annealing.Lockstep Q Eq (Turn.perform i cx₁.problem.randomSolution)
    (Turn.perform i cx₂.problem.randomSolution)
  energy : ∀ i s, Annealing.Lockstep Q Eq (Turn.perform i (cx₁.problem.energy s))
    (Turn.perform i (cx₂.problem.energy s))
  neighbor : ∀ i s, Annealing.Lockstep Q Eq (Turn.perform i (cx₁.problem.neighbor s))
    (Turn.perform i (cx₂.problem.neighbor s))
  progress : ∀ i f, cx₁.observer.progress = some f → ∀ st it e s,
    Annealing.Lockstep Q Eq (Turn.hook i (f st it e s)) (Turn.hook i (f st it e s))
  stop : ∀ i f, cx₁.observer.stop = some f → ∀ it e s,
    Annealing.Lockstep Q Eq (Turn.hook i (f it e s)) (Turn.hook i (f it e s))
  draw : ∀ {α : Type} (f : Stream → α × Stream),
    Annealing.Lockstep Q Eq (Turn.draw f) (Turn.draw f)
  publish : ∀ e s, Annealing.Lockstep Q Eq (Turn.publish e s) (Turn.publish e s)
  shared : Annealing.Lockstep Q
    (fun a b => a.abort = b.abort ∧
      cx₁.observer.cancelRequested a.observer = cx₁.observer.cancelRequested b.observer)
    Turn.shared Turn.shared

namespace Lockstep

variable {Q : Shared σ₁ ω S × Stream → Shared σ₂ ω S × Stream → Prop}
  {cx₁ : Setup σ₁ ω S} {cx₂ : Setup σ₂ ω S}

theorem evaluate (h : Lockstep Q cx₁ cx₂) (i it : Nat) (s : S) :
    Annealing.Lockstep Q Eq (Turn.evaluate cx₁.problem i it s)
      (Turn.evaluate cx₂.problem i it s) := by
  unfold Turn.evaluate
  refine Annealing.Lockstep.bind (h.energy i s) fun e _ he => ?_
  subst he
  split
  · exact Annealing.Lockstep.fail _
  · exact Annealing.Lockstep.ret rfl

theorem move (h : Lockstep Q cx₁ cx₂) (i it : Nat) (w : Walk S) :
    Annealing.Lockstep Q Eq (Turn.move cx₁ i it w) (Turn.move cx₂ i it w) := by
  unfold Turn.move
  rw [← h.config]
  refine Annealing.Lockstep.bind (h.neighbor i _) fun cand _ hc => ?_
  subst hc
  refine Annealing.Lockstep.bind (h.evaluate i it cand) fun e _ he => ?_
  subst he
  refine Annealing.Lockstep.bind (h.draw _) fun taken _ ht => ?_
  subst ht
  exact Annealing.Lockstep.ret rfl

theorem keepBest (h : Lockstep Q cx₁ cx₂) (c : Config) (it : Nat) (w : Walk S) :
    Annealing.Lockstep Q Eq (Turn.keepBest c it w : Turn σ₁ ω S (Walk S))
      (Turn.keepBest c it w : Turn σ₂ ω S (Walk S)) := by
  unfold Turn.keepBest
  dsimp only
  -- the publication, if any, then the count and the sample of the best energy
  split
  · refine Annealing.Lockstep.bind (h.publish _ _) fun _ _ _ => ?_
    refine Annealing.Lockstep.bind (Annealing.Lockstep.ret rfl) fun w _ hw => ?_
    subst hw
    split
    · exact Annealing.Lockstep.ret rfl
    · exact Annealing.Lockstep.ret rfl
  · refine Annealing.Lockstep.bind (Annealing.Lockstep.ret rfl) fun w _ hw => ?_
    subst hw
    split
    · exact Annealing.Lockstep.ret rfl
    · exact Annealing.Lockstep.ret rfl

theorem observe (h : Lockstep Q cx₁ cx₂) (i it : Nat) (w : Walk S) :
    Annealing.Lockstep Q Eq (Turn.observe cx₁ i it w) (Turn.observe cx₂ i it w) := by
  unfold Turn.observe
  rw [← h.observer, ← h.status]
  -- the progress hook, if any, then the stop hook, if any
  rcases hf : cx₁.observer.progress with _ | f <;>
    rcases hg : cx₁.observer.stop with _ | g <;> dsimp only
  · exact Annealing.Lockstep.ret rfl
  · exact h.stop i g hg _ _ _
  · exact Annealing.Lockstep.bind (h.progress i f hf _ _ _ _) fun _ _ _ =>
      Annealing.Lockstep.ret rfl
  · exact Annealing.Lockstep.bind (h.progress i f hf _ _ _ _) fun _ _ _ => h.stop i g hg _ _ _

theorem advance (h : Lockstep Q cx₁ cx₂) (i it : Nat) (w : Walk S) :
    Annealing.Lockstep Q Eq (Turn.advance cx₁ i it w) (Turn.advance cx₂ i it w) := by
  unfold Turn.advance
  dsimp only
  rw [← h.config, ← h.watchCancel, ← h.observer]
  split
  · exact Annealing.Lockstep.ret rfl
  · -- the abort flag and the cancel token read alike
    refine Annealing.Lockstep.bind h.shared fun a b hab => ?_
    rw [hab.1, hab.2]
    split
    · exact Annealing.Lockstep.ret rfl
    · split
      · exact Annealing.Lockstep.ret rfl
      · refine Annealing.Lockstep.bind (h.move i it w) fun w _ hw => ?_
        subst hw
        refine Annealing.Lockstep.bind (h.keepBest _ it w) fun w _ hw => ?_
        subst hw
        refine Annealing.Lockstep.bind (h.observe i it w) fun stop _ hs => ?_
        subst hs
        split
        · exact Annealing.Lockstep.ret rfl
        · split
          · exact Annealing.Lockstep.ret rfl
          · exact Annealing.Lockstep.ret rfl

theorem begin (h : Lockstep Q cx₁ cx₂) (i : Nat) :
    Annealing.Lockstep Q Eq (Turn.begin cx₁ i) (Turn.begin cx₂ i) := by
  unfold Turn.begin
  dsimp only
  rw [← h.config]
  refine Annealing.Lockstep.bind (h.randomSolution i) fun s _ hs => ?_
  subst hs
  refine Annealing.Lockstep.bind (h.evaluate i 0 s) fun e _ he => ?_
  subst he
  refine Annealing.Lockstep.bind (h.publish e s) fun _ _ _ => ?_
  -- the adaptive controller, whose reservation may fail
  split
  · split
    · refine Annealing.Lockstep.bind (Annealing.Lockstep.ret rfl) fun _ _ hc => ?_
      subst hc
      exact Annealing.Lockstep.ret rfl
    · refine Annealing.Lockstep.bind
        (Annealing.Lockstep.fail _ : Annealing.Lockstep Q Eq _ _) fun _ _ hc => ?_
      subst hc
      exact Annealing.Lockstep.ret rfl
  · refine Annealing.Lockstep.bind (Annealing.Lockstep.ret rfl) fun _ _ hc => ?_
    subst hc
    exact Annealing.Lockstep.ret rfl

/-- A whole iteration is in lockstep once its restart is, for every walk `P` holds of, and
`P` holds of every walk the iteration reaches before its restart. -/
theorem iterate (h : Lockstep Q cx₁ cx₂) (i it : Nat) (w : Walk S) (P : Walk S → Prop)
    (hreach : ∀ x w' y, Turn.advance cx₁ i it w x = .ok (.inr w') y → P w')
    (hrestart : ∀ w', P w' →
      Annealing.Lockstep Q Eq (Turn.restart cx₁ i it w') (Turn.restart cx₂ i it w')) :
    Annealing.Lockstep Q Eq (Turn.iterate cx₁ i it w) (Turn.iterate cx₂ i it w) := by
  unfold Turn.iterate
  have hadvance : Annealing.Lockstep Q (fun a b => a = b ∧ ∀ w', a = .inr w' → P w')
      (Turn.advance cx₁ i it w) (Turn.advance cx₂ i it w) :=
    (h.advance i it w).and_left fun x r y hr w' hw => hreach x w' y (hw ▸ hr)
  refine Annealing.Lockstep.bind hadvance fun r _ ⟨hr, hP⟩ => ?_
  subst hr
  rcases r with phase | w
  · exact Annealing.Lockstep.ret rfl
  · exact Annealing.Lockstep.bind (hrestart w (hP w rfl)) fun w _ hw =>
      hw ▸ Annealing.Lockstep.ret rfl

/-- A worker's step from related states leaves the same worker and related states, when its
iteration is in lockstep, `Q` fixes the stream, and raising the abort flag on both sides keeps
`Q` whenever the step fails. -/
theorem step (h : Lockstep Q cx₁ cx₂) (hstream : ∀ x₁ x₂, Q x₁ x₂ → x₁.2 = x₂.2)
    {sh₁ : Shared σ₁ ω S} {sh₂ : Shared σ₂ ω S} {wk : Worker S}
    (habort : ∀ x₁ x₂ e, Q x₁ x₂ → (Worker.step cx₂ sh₂ wk).2.phase = .failed e →
      Q ({ x₁.1 with abort := true }, x₁.2) ({ x₂.1 with abort := true }, x₂.2))
    (hq : Q (sh₁, wk.stream) (sh₂, wk.stream))
    (hiterate : ∀ it w, wk.phase = .walking it w →
      Annealing.Lockstep Q Eq (Turn.iterate cx₁ wk.index it w) (Turn.iterate cx₂ wk.index it w)) :
    (Worker.step cx₂ sh₂ wk).2 = (Worker.step cx₁ sh₁ wk).2 ∧
      Q ((Worker.step cx₁ sh₁ wk).1, (Worker.step cx₁ sh₁ wk).2.stream)
        ((Worker.step cx₂ sh₂ wk).1, (Worker.step cx₂ sh₂ wk).2.stream) := by
  obtain ⟨i, g, phase⟩ := wk
  -- both sides run the same turn from related states, and settle its end alike
  cases phase with
  | start =>
      have hb := h.begin i (sh₁, g) (sh₂, g) hq
      revert hb habort
      simp only [Worker.step]
      rcases Turn.begin cx₁ i (sh₁, g) with ⟨a, ⟨y₁, g₁⟩⟩ | ⟨e₁, ⟨y₁, g₁⟩⟩ <;>
        rcases Turn.begin cx₂ i (sh₂, g) with ⟨b, ⟨y₂, g₂⟩⟩ | ⟨e₂, ⟨y₂, g₂⟩⟩
      · rintro - ⟨rfl, hy⟩
        cases hstream _ _ hy
        exact ⟨rfl, hy⟩
      · exact fun _ h => (h : False).elim
      · exact fun _ h => (h : False).elim
      · rintro habort ⟨rfl, hy⟩
        cases hstream _ _ hy
        exact ⟨rfl, habort _ _ e₁ hy rfl⟩
  | walking it w =>
      have hb := hiterate it w rfl (sh₁, g) (sh₂, g) hq
      revert hb habort
      simp only [Worker.step]
      rcases Turn.iterate cx₁ i it w (sh₁, g) with ⟨a, ⟨y₁, g₁⟩⟩ | ⟨e₁, ⟨y₁, g₁⟩⟩ <;>
        rcases Turn.iterate cx₂ i it w (sh₂, g) with ⟨b, ⟨y₂, g₂⟩⟩ | ⟨e₂, ⟨y₂, g₂⟩⟩
      · rintro - ⟨rfl, hy⟩
        cases hstream _ _ hy
        exact ⟨rfl, hy⟩
      · exact fun _ h => (h : False).elim
      · exact fun _ h => (h : False).elim
      · rintro habort ⟨rfl, hy⟩
        cases hstream _ _ hy
        exact ⟨rfl, habort _ _ e₁ hy rfl⟩
  | finished best st => exact ⟨rfl, hq⟩
  | failed e => exact ⟨rfl, hq⟩

end Lockstep

end Setup

end Annealing
