import Annealing.Proofs.Recording

/-!
# Runs that note every call

A worker's statistics say how many iterations it made, but not what it asked of the problem
and of the hooks on the way: how often it drew a random solution, evaluated an energy or drew
a neighbour, which iterations the hooks were shown, and which call failed when the worker
failed. To speak of those calls, the problem and the observer are given logs
(`Setup.audited`): every call is noted with its arguments and its answer, a failure as well,
in the order made, and nothing else changes. The audited run is the same run: seen without
the logs, a worker's step in it is its step in the plain run (`Worker.step_unaudited`), and
the calls of a step are what its audited twin notes from empty logs (`Worker.problemCalls`,
`Worker.hookCalls`).

The proof is a lockstep, as for the log of energies in `Annealing.Proofs.Recording`, but the
audited observer keeps its log in the observer's state, so the two runs no longer share an
observer. `Setup.Twin` is the lockstep of two setups with observers of their own: the hooks
of the two sides are in lockstep, and the relation between states reads the same abort flag
and cancel token on both sides.
-/

namespace Annealing

open Annealing.Random

variable {σ ω S α : Type}

/-! ## The calls and their logs -/

/-- A call a worker made to its problem, with the answer it got. -/
inductive ProblemCall (S : Type)
  | randomSolution (answer : Except Fault S)
  | energy (solution : S) (answer : Except Fault Float)
  | neighbor (solution : S) (answer : Except Fault S)

/-- A call a worker made to a hook of its observer, with what it passed and the answer. -/
inductive HookCall (S : Type)
  | progress (iteration : Nat) (energy : Float) (solution : S) (answer : Except String Unit)
  | stop (iteration : Nat) (energy : Float) (solution : S) (answer : Except String Bool)

/-- An operation on the first part of a larger bookkeeping, whose answer, a failure as well,
is noted in the log kept in the second part. -/
def Eval.audit {τ : Type} (act : Eval σ α) (entry : Except Fault α → τ) :
    Eval (σ × List τ) α :=
  fun ((p, log), g) =>
    match act (p, g) with
    | .ok a (p, g) => .ok a ((p, log ++ [entry (.ok a)]), g)
    | .error f (p, g) => .error f ((p, log ++ [entry (.error f)]), g)

/-- A hook on the first part of a larger state, whose answer, a failure as well, is noted in
the log kept in the second part. -/
def Observer.audit {τ : Type} (act : EStateM String ω α) (entry : Except String α → τ) :
    EStateM String (ω × List τ) α :=
  fun (o, log) =>
    match act o with
    | .ok a o => .ok a (o, log ++ [entry (.ok a)])
    | .error m o => .error m (o, log ++ [entry (.error m)])

/-- The problem with a log, kept in its bookkeeping, of every call made to it. -/
def Problem.audited (p : Problem σ S) : Problem (σ × List (ProblemCall S)) S where
  randomSolution := Eval.audit p.randomSolution .randomSolution
  energy s := Eval.audit (p.energy s) (.energy s)
  neighbor s := Eval.audit (p.neighbor s) (.neighbor s)
  validate := p.validate

/-- The observer with a log, kept in its state, of every call made to its hooks. The cancel
token is read from the observer's own state. -/
def Observer.audited (o : Observer ω S) : Observer (ω × List (HookCall S)) S where
  progress := o.progress.map fun f st it e s => Observer.audit (f st it e s) (.progress it e s)
  stop := o.stop.map fun f it e s => Observer.audit (f it e s) (.stop it e s)
  cancelRequested x := o.cancelRequested x.1

/-- Every turn of a setup whose problem and observer note their calls. -/
def Setup.audited (cx : Setup σ ω S) : Setup (σ × List (ProblemCall S)) (ω × List (HookCall S)) S :=
  { cx with problem := cx.problem.audited, observer := cx.observer.audited }

namespace Shared

/-- The shared state seen without the logs. -/
def unaudited (sh : Shared (σ × List (ProblemCall S)) (ω × List (HookCall S)) S) :
    Shared σ ω S :=
  ⟨sh.register, sh.problem.1, sh.observer.1, sh.abort⟩

/-- The shared state with empty logs. -/
def audited (sh : Shared σ ω S) : Shared (σ × List (ProblemCall S)) (ω × List (HookCall S)) S :=
  ⟨sh.register, (sh.problem, []), (sh.observer, []), sh.abort⟩

/-- The calls noted by the problem. -/
def problemCalls (sh : Shared (σ × List (ProblemCall S)) (ω × List (HookCall S)) S) :
    List (ProblemCall S) :=
  sh.problem.2

/-- The calls noted by the observer. -/
def hookCalls (sh : Shared (σ × List (ProblemCall S)) (ω × List (HookCall S)) S) :
    List (HookCall S) :=
  sh.observer.2

@[simp] theorem unaudited_audited (sh : Shared σ ω S) : sh.audited.unaudited = sh := rfl

@[simp] theorem problemCalls_audited (sh : Shared σ ω S) : sh.audited.problemCalls = [] := rfl

@[simp] theorem hookCalls_audited (sh : Shared σ ω S) : sh.audited.hookCalls = [] := rfl

end Shared

/-! ## The hooks of an iteration -/

/-- The progress hook's call at the end of an iteration, if the observer has one. -/
def Turn.report (cx : Setup σ ω S) (index iteration : Nat) (w : Walk S) : Turn σ ω S Unit :=
  match cx.observer.progress with
  | some f => Turn.hook index (f cx.status iteration w.currentEnergy w.current)
  | none => pure ()

/-- The stop hook's call at the end of an iteration, if the observer has one; without one the
walk goes on. -/
def Turn.askStop (cx : Setup σ ω S) (index iteration : Nat) (w : Walk S) : Turn σ ω S Bool :=
  match cx.observer.stop with
  | some f => Turn.hook index (f iteration w.currentEnergy w.current)
  | none => pure false

theorem Turn.observe_eq (cx : Setup σ ω S) (i it : Nat) (w : Walk S) :
    Turn.observe cx i it w = (Turn.report cx i it w >>= fun _ => Turn.askStop cx i it w) := by
  unfold Turn.observe Turn.report Turn.askStop
  rcases cx.observer.progress with _ | f <;> rcases cx.observer.stop with _ | g <;> rfl

/-! ## Two setups with observers of their own -/

namespace Setup

variable {σ₁ σ₂ ω₁ ω₂ : Type}

/-- Two setups whose turns run alike from states related by `Q`: the same configuration and
cancel watch, problem operations, hooks and draws in lockstep, and a relation that sees the
same stream, register, abort flag and cancel token on both sides and survives writing the same
register, or raising the abort flag, on both. -/
structure Twin (Q : Shared σ₁ ω₁ S × Stream → Shared σ₂ ω₂ S × Stream → Prop)
    (cx₁ : Setup σ₁ ω₁ S) (cx₂ : Setup σ₂ ω₂ S) : Prop where
  config : cx₁.config = cx₂.config
  watchCancel : cx₁.watchCancel = cx₂.watchCancel
  randomSolution : ∀ i, Annealing.Lockstep Q Eq (Turn.perform i cx₁.problem.randomSolution)
    (Turn.perform i cx₂.problem.randomSolution)
  energy : ∀ i s, Annealing.Lockstep Q Eq (Turn.perform i (cx₁.problem.energy s))
    (Turn.perform i (cx₂.problem.energy s))
  neighbor : ∀ i s, Annealing.Lockstep Q Eq (Turn.perform i (cx₁.problem.neighbor s))
    (Turn.perform i (cx₂.problem.neighbor s))
  report : ∀ i it w, Annealing.Lockstep Q Eq (Turn.report cx₁ i it w) (Turn.report cx₂ i it w)
  askStop : ∀ i it w, Annealing.Lockstep Q Eq (Turn.askStop cx₁ i it w) (Turn.askStop cx₂ i it w)
  draw : ∀ {α : Type} (f : Stream → α × Stream),
    Annealing.Lockstep Q Eq (Turn.draw f) (Turn.draw f)
  stream : ∀ x₁ x₂, Q x₁ x₂ → x₁.2 = x₂.2
  register : ∀ x₁ x₂, Q x₁ x₂ → x₁.1.register = x₂.1.register
  setRegister : ∀ x₁ x₂ r, Q x₁ x₂ →
    Q ({ x₁.1 with register := r }, x₁.2) ({ x₂.1 with register := r }, x₂.2)
  flags : ∀ x₁ x₂, Q x₁ x₂ → x₁.1.abort = x₂.1.abort ∧
    cx₁.observer.cancelRequested x₁.1.observer = cx₂.observer.cancelRequested x₂.1.observer
  raise : ∀ x₁ x₂, Q x₁ x₂ →
    Q ({ x₁.1 with abort := true }, x₁.2) ({ x₂.1 with abort := true }, x₂.2)

namespace Twin

variable {Q : Shared σ₁ ω₁ S × Stream → Shared σ₂ ω₂ S × Stream → Prop}
  {cx₁ : Setup σ₁ ω₁ S} {cx₂ : Setup σ₂ ω₂ S}

theorem publish (h : Twin Q cx₁ cx₂) (e : Float) (s : S) :
    Annealing.Lockstep Q Eq (Turn.publish e s) (Turn.publish e s) := by
  rintro ⟨sh₁, g₁⟩ ⟨sh₂, g₂⟩ hq
  rw [Turn.publish_eq, Turn.publish_eq]
  have hr : sh₁.register = sh₂.register := h.register _ _ hq
  rw [hr]
  exact ⟨rfl, h.setRegister _ _ _ hq⟩

theorem shared (h : Twin Q cx₁ cx₂) :
    Annealing.Lockstep Q
      (fun a b => a.abort = b.abort ∧
        cx₁.observer.cancelRequested a.observer = cx₂.observer.cancelRequested b.observer)
      Turn.shared Turn.shared :=
  fun x₁ x₂ hq => ⟨h.flags x₁ x₂ hq, hq⟩

theorem evaluate (h : Twin Q cx₁ cx₂) (i it : Nat) (s : S) :
    Annealing.Lockstep Q Eq (Turn.evaluate cx₁.problem i it s)
      (Turn.evaluate cx₂.problem i it s) := by
  unfold Turn.evaluate
  refine Annealing.Lockstep.bind (h.energy i s) fun e _ he => ?_
  subst he
  split
  · exact Annealing.Lockstep.fail _
  · exact Annealing.Lockstep.ret rfl

theorem move (h : Twin Q cx₁ cx₂) (i it : Nat) (w : Walk S) :
    Annealing.Lockstep Q Eq (Turn.move cx₁ i it w) (Turn.move cx₂ i it w) := by
  unfold Turn.move
  rw [← h.config]
  refine Annealing.Lockstep.bind (h.neighbor i _) fun cand _ hc => ?_
  subst hc
  refine Annealing.Lockstep.bind (h.evaluate i it cand) fun e _ he => ?_
  subst he
  refine Annealing.Lockstep.bind (h.draw _) fun taken _ ht => ?_
  subst ht
  exact Annealing.Lockstep.ret rfl

theorem keepBest (h : Twin Q cx₁ cx₂) (c : Config) (it : Nat) (w : Walk S) :
    Annealing.Lockstep Q Eq (Turn.keepBest c it w : Turn σ₁ ω₁ S (Walk S))
      (Turn.keepBest c it w : Turn σ₂ ω₂ S (Walk S)) := by
  unfold Turn.keepBest
  dsimp only
  -- the publication, if any, then the count and the sample of the best energy
  split
  · refine Annealing.Lockstep.bind (h.publish _ _) fun _ _ _ => ?_
    refine Annealing.Lockstep.bind (Annealing.Lockstep.ret rfl) fun w _ hw => ?_
    subst hw
    split
    · exact Annealing.Lockstep.ret rfl
    · exact Annealing.Lockstep.ret rfl
  · refine Annealing.Lockstep.bind (Annealing.Lockstep.ret rfl) fun w _ hw => ?_
    subst hw
    split
    · exact Annealing.Lockstep.ret rfl
    · exact Annealing.Lockstep.ret rfl

theorem observe (h : Twin Q cx₁ cx₂) (i it : Nat) (w : Walk S) :
    Annealing.Lockstep Q Eq (Turn.observe cx₁ i it w) (Turn.observe cx₂ i it w) := by
  rw [Turn.observe_eq, Turn.observe_eq]
  exact Annealing.Lockstep.bind (h.report i it w) fun _ _ _ => h.askStop i it w

theorem advance (h : Twin Q cx₁ cx₂) (i it : Nat) (w : Walk S) :
    Annealing.Lockstep Q Eq (Turn.advance cx₁ i it w) (Turn.advance cx₂ i it w) := by
  unfold Turn.advance
  dsimp only
  rw [← h.config, ← h.watchCancel]
  split
  · exact Annealing.Lockstep.ret rfl
  · -- the abort flag and the cancel token read alike
    refine Annealing.Lockstep.bind h.shared fun a b hab => ?_
    rw [hab.1, hab.2]
    split
    · exact Annealing.Lockstep.ret rfl
    · split
      · exact Annealing.Lockstep.ret rfl
      · refine Annealing.Lockstep.bind (h.move i it w) fun w _ hw => ?_
        subst hw
        refine Annealing.Lockstep.bind (h.keepBest _ it w) fun w _ hw => ?_
        subst hw
        refine Annealing.Lockstep.bind (h.observe i it w) fun stop _ hs => ?_
        subst hs
        split
        · exact Annealing.Lockstep.ret rfl
        · split
          · exact Annealing.Lockstep.ret rfl
          · exact Annealing.Lockstep.ret rfl

theorem begin (h : Twin Q cx₁ cx₂) (i : Nat) :
    Annealing.Lockstep Q Eq (Turn.begin cx₁ i) (Turn.begin cx₂ i) := by
  unfold Turn.begin
  dsimp only
  rw [← h.config]
  refine Annealing.Lockstep.bind (h.randomSolution i) fun s _ hs => ?_
  subst hs
  refine Annealing.Lockstep.bind (h.evaluate i 0 s) fun e _ he => ?_
  subst he
  refine Annealing.Lockstep.bind (h.publish e s) fun _ _ _ => ?_
  -- the adaptive controller, whose reservation may fail
  split
  · split
    · refine Annealing.Lockstep.bind (Annealing.Lockstep.ret rfl) fun _ _ hc => ?_
      subst hc
      exact Annealing.Lockstep.ret rfl
    · refine Annealing.Lockstep.bind
        (Annealing.Lockstep.fail _ : Annealing.Lockstep Q Eq _ _) fun _ _ hc => ?_
      subst hc
      exact Annealing.Lockstep.ret rfl
  · refine Annealing.Lockstep.bind (Annealing.Lockstep.ret rfl) fun _ _ hc => ?_
    subst hc
    exact Annealing.Lockstep.ret rfl

/-- The restart reads the register, which both sides hold alike, and writes the same
register on both. -/
theorem restart (h : Twin Q cx₁ cx₂) (i it : Nat) (w : Walk S) :
    Annealing.Lockstep Q Eq (Turn.restart cx₁ i it w) (Turn.restart cx₂ i it w) := by
  unfold Turn.restart
  rcases w.restarter.tick with ⟨due, r⟩
  dsimp only
  split
  · exact Annealing.Lockstep.ret rfl
  · refine Annealing.Lockstep.bind (h.randomSolution i) fun fresh _ hf => ?_
    subst hf
    refine Annealing.Lockstep.bind (h.evaluate i it fresh) fun e _ he => ?_
    subst he
    refine Annealing.Lockstep.bind Lockstep.get fun x₁ x₂ hx => ?_
    obtain ⟨sh₁, g₁⟩ := x₁
    obtain ⟨sh₂, g₂⟩ := x₂
    have hr : sh₁.register = sh₂.register := h.register _ _ hx
    dsimp only
    rw [hr]
    rcases r.offer fresh e sh₂.register with ⟨adopted, r', reg⟩
    dsimp only
    refine Annealing.Lockstep.bind (Annealing.Lockstep.set (h.setRegister _ _ reg hx))
      fun _ _ _ => ?_
    split
    · exact Annealing.Lockstep.ret rfl
    · exact Annealing.Lockstep.ret rfl

theorem iterate (h : Twin Q cx₁ cx₂) (i it : Nat) (w : Walk S) :
    Annealing.Lockstep Q Eq (Turn.iterate cx₁ i it w) (Turn.iterate cx₂ i it w) := by
  unfold Turn.iterate
  refine Annealing.Lockstep.bind (h.advance i it w) fun r _ hr => ?_
  subst hr
  rcases r with phase | w
  · exact Annealing.Lockstep.ret rfl
  · exact Annealing.Lockstep.bind (h.restart i it w) fun w _ hw => hw ▸ Annealing.Lockstep.ret rfl

/-- A worker's step from related states leaves the same worker and related states. -/
theorem step (h : Twin Q cx₁ cx₂) {sh₁ : Shared σ₁ ω₁ S} {sh₂ : Shared σ₂ ω₂ S}
    {wk : Worker S} (hq : Q (sh₁, wk.stream) (sh₂, wk.stream)) :
    (Worker.step cx₂ sh₂ wk).2 = (Worker.step cx₁ sh₁ wk).2 ∧
      Q ((Worker.step cx₁ sh₁ wk).1, (Worker.step cx₁ sh₁ wk).2.stream)
        ((Worker.step cx₂ sh₂ wk).1, (Worker.step cx₂ sh₂ wk).2.stream) := by
  obtain ⟨i, g, phase⟩ := wk
  -- both sides run the same turn from related states, and settle its end alike
  cases phase with
  | start =>
      have hb := h.begin i (sh₁, g) (sh₂, g) hq
      revert hb
      simp only [Worker.step]
      rcases Turn.begin cx₁ i (sh₁, g) with ⟨a, ⟨y₁, g₁⟩⟩ | ⟨e₁, ⟨y₁, g₁⟩⟩ <;>
        rcases Turn.begin cx₂ i (sh₂, g) with ⟨b, ⟨y₂, g₂⟩⟩ | ⟨e₂, ⟨y₂, g₂⟩⟩
      · rintro ⟨rfl, hy⟩
        cases h.stream _ _ hy
        exact ⟨rfl, hy⟩
      · exact fun h => (h : False).elim
      · exact fun h => (h : False).elim
      · rintro ⟨rfl, hy⟩
        cases h.stream _ _ hy
        exact ⟨rfl, h.raise _ _ hy⟩
  | walking it w =>
      have hb := h.iterate i it w (sh₁, g) (sh₂, g) hq
      revert hb
      simp only [Worker.step, id]
      rcases Turn.iterate cx₁ i it w (sh₁, g) with ⟨a, ⟨y₁, g₁⟩⟩ | ⟨e₁, ⟨y₁, g₁⟩⟩ <;>
        rcases Turn.iterate cx₂ i it w (sh₂, g) with ⟨b, ⟨y₂, g₂⟩⟩ | ⟨e₂, ⟨y₂, g₂⟩⟩
      · rintro ⟨rfl, hy⟩
        cases h.stream _ _ hy
        exact ⟨rfl, hy⟩
      · exact fun h => (h : False).elim
      · exact fun h => (h : False).elim
      · rintro ⟨rfl, hy⟩
        cases h.stream _ _ hy
        exact ⟨rfl, h.raise _ _ hy⟩
  | finished best st => exact ⟨rfl, hq⟩
  | failed e => exact ⟨rfl, hq⟩

end Twin

end Setup

/-! ## The audited run is the plain run -/

/-- An audited state and a plain one that are the same state but for the logs. -/
def Unaudits (x₁ : Shared (σ × List (ProblemCall S)) (ω × List (HookCall S)) S × Stream)
    (x₂ : Shared σ ω S × Stream) : Prop :=
  x₂ = (x₁.1.unaudited, x₁.2)

namespace Unaudits

theorem perform (i : Nat) (act : Eval σ α) (entry : Except Fault α → ProblemCall S) :
    Lockstep Unaudits Eq
      (Turn.perform i (Eval.audit act entry) :
        Turn (σ × List (ProblemCall S)) (ω × List (HookCall S)) S α)
      (Turn.perform i act : Turn σ ω S α) := by
  rintro ⟨⟨reg, ⟨p, log⟩, obs, ab⟩, g⟩ _ rfl
  simp only [Turn.perform, Eval.audit, Shared.unaudited]
  rcases act (p, g) with ⟨a, ⟨p', g'⟩⟩ | ⟨f, ⟨p', g'⟩⟩
  · exact ⟨rfl, rfl⟩
  · exact ⟨rfl, rfl⟩

theorem hook (i : Nat) (act : EStateM String ω α) (entry : Except String α → HookCall S) :
    Lockstep Unaudits Eq
      (Turn.hook i (Observer.audit act entry) :
        Turn (σ × List (ProblemCall S)) (ω × List (HookCall S)) S α)
      (Turn.hook i act : Turn σ ω S α) := by
  rintro ⟨⟨reg, p, ⟨o, log⟩, ab⟩, g⟩ _ rfl
  simp only [Turn.hook, Observer.audit, Shared.unaudited]
  rcases act o with ⟨a, o'⟩ | ⟨m, o'⟩
  · exact ⟨rfl, rfl⟩
  · exact ⟨rfl, rfl⟩

theorem report (cx : Setup σ ω S) (i it : Nat) (w : Walk S) :
    Lockstep Unaudits Eq (Turn.report cx.audited i it w) (Turn.report cx i it w) := by
  unfold Turn.report
  rcases hp : cx.observer.progress with _ | f
  · have hnone : cx.audited.observer.progress = none := by
      simp [Setup.audited, Observer.audited, hp]
    rw [hnone]
    exact Lockstep.ret rfl
  · have hsome : cx.audited.observer.progress = some fun st it e s =>
        Observer.audit (f st it e s) (.progress it e s) := by
      simp [Setup.audited, Observer.audited, hp]
    rw [hsome]
    exact hook i _ _

theorem askStop (cx : Setup σ ω S) (i it : Nat) (w : Walk S) :
    Lockstep Unaudits Eq (Turn.askStop cx.audited i it w) (Turn.askStop cx i it w) := by
  unfold Turn.askStop
  rcases hs : cx.observer.stop with _ | f
  · have hnone : cx.audited.observer.stop = none := by
      simp [Setup.audited, Observer.audited, hs]
    rw [hnone]
    exact Lockstep.ret rfl
  · have hsome : cx.audited.observer.stop = some fun it e s =>
        Observer.audit (f it e s) (.stop it e s) := by
      simp [Setup.audited, Observer.audited, hs]
    rw [hsome]
    exact hook i _ _

end Unaudits

theorem Setup.twin_audited (cx : Setup σ ω S) : cx.audited.Twin Unaudits cx where
  config := rfl
  watchCancel := rfl
  randomSolution i := Unaudits.perform i _ _
  energy i s := Unaudits.perform i _ _
  neighbor i s := Unaudits.perform i _ _
  report i it w := Unaudits.report cx i it w
  askStop i it w := Unaudits.askStop cx i it w
  draw f := by
    rintro ⟨sh, g⟩ _ rfl
    exact ⟨rfl, rfl⟩
  stream := by
    rintro x₁ _ rfl
    rfl
  register := by
    rintro x₁ _ rfl
    rfl
  setRegister := by
    rintro x₁ _ r rfl
    rfl
  flags := by
    rintro x₁ _ rfl
    exact ⟨rfl, rfl⟩
  raise := by
    rintro x₁ _ rfl
    rfl

/-- A worker's step in an audited run is its step in the plain run, seen without the logs. -/
theorem Worker.step_unaudited (cx : Setup σ ω S)
    (sh : Shared (σ × List (ProblemCall S)) (ω × List (HookCall S)) S) (wk : Worker S) :
    Worker.step cx sh.unaudited wk =
      ((Worker.step cx.audited sh wk).1.unaudited, (Worker.step cx.audited sh wk).2) := by
  obtain ⟨hwk, hsh⟩ := cx.twin_audited.step
    (rfl : Unaudits (sh, wk.stream) (sh.unaudited, wk.stream))
  have hsh : ((Worker.step cx sh.unaudited wk).1, (Worker.step cx sh.unaudited wk).2.stream) =
      ((Worker.step cx.audited sh wk).1.unaudited, (Worker.step cx.audited sh wk).2.stream) :=
    hsh
  have hfst := congrArg Prod.fst hsh
  exact Prod.ext hfst hwk

/-- The calls to the problem that a worker's step from `sh` makes, in order, with their
answers. -/
def Worker.problemCalls (cx : Setup σ ω S) (sh : Shared σ ω S) (wk : Worker S) :
    List (ProblemCall S) :=
  (Worker.step cx.audited sh.audited wk).1.problemCalls

/-- The calls to the hooks that a worker's step from `sh` makes, in order, with their
arguments and answers. -/
def Worker.hookCalls (cx : Setup σ ω S) (sh : Shared σ ω S) (wk : Worker S) :
    List (HookCall S) :=
  (Worker.step cx.audited sh.audited wk).1.hookCalls

end Annealing
