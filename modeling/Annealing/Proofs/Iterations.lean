import Annealing.Proofs.Calls

/-!
# A worker's step, by its exits

A step of a walking worker runs one iteration, which has five exits: three checks before the
move (past the last iteration, the abort flag, the cancel token), the stop hook, and the end
after the last iteration; past all of them the walk goes on through its restart. `Iterated`
names each exit with what the step asked of the problem and the hooks and the phase it left,
and `Worker.step_walking` says that every step of a walking worker that does not fail is one
of them. A step that fails does so on its one failing call (`Worker.step_walking_failed`,
`Worker.step_start_failed`), the adaptive controller's reservation at the start apart.

Everything here is read off the audited pieces of `Annealing.Proofs.Calls` and carried to the
plain run by the twin lockstep; no proof below unfolds a piece of a turn.
-/

namespace Annealing

open Annealing.Random

variable {σ ω S : Type}

/-! ## The exits of an iteration -/

/-- An iteration's move followed by the keeping of its best: the walk its hooks are shown,
and whose best energy is sampled. -/
def Turn.moveKeep (cx : Setup σ ω S) (index iteration : Nat) (w : Walk S) :
    Turn σ ω S (Walk S) :=
  Turn.move cx index iteration w >>= Turn.keepBest cx.config iteration

/-- What an iteration's move and the keeping of its best do to the counters of walk `w`,
reaching `m`: the iteration is counted, with at most one accepted move and an improving one
only with it, the best energy is sampled when a sample is due, and the restart schedule is
left alone. -/
structure Walk.Moved (c : Config) (it : Nat) (w m : Walk S) : Prop where
  restarter : m.restarter = w.restarter
  iterations : m.iterations = it + 1
  history : m.history = if 0 < c.historyInterval ∧ (it + 1) % c.historyInterval = 0 then
    w.history.push m.bestEnergy else w.history
  moves : m.accepted = w.accepted ∧ m.improving = w.improving ∨
    m.accepted = w.accepted + 1 ∧ m.improving ≤ w.improving + 1

/-- What the restart after an iteration, and the cooling, do to walk `m`, reaching `w'`, with
the problem calls `P`: the schedule counts the iteration, and when a restart is due a fresh
solution is drawn, evaluated and offered through the schedule. -/
structure Walk.Restarted (m w' : Walk S) (P : List (ProblemCall S)) : Prop where
  accepted : w'.accepted = m.accepted
  improving : w'.improving = m.improving
  iterations : w'.iterations = m.iterations
  history : w'.history = m.history
  schedule : m.restarter.tick.1 = false ∧ w'.restarter = m.restarter.tick.2 ∧ P = [] ∨
    m.restarter.tick.1 = true ∧ ∃ f v reg, v.isNaN = false ∧
      w'.restarter = (m.restarter.tick.2.offer f v reg).2.1 ∧
      P = [.randomSolution (.ok f), .energy f (.ok v)]

/-- How iteration `it` of worker `i` ends once its hooks answered `stop`: the walk `m` it
reached ends on the stop hook, or after the last iteration, or goes on through its restart,
which makes the problem calls `P`. -/
inductive Walk.Ended (c : Config) (i it : Nat) (m : Walk S) :
    Bool → List (ProblemCall S) → Phase S → Prop
  | stopped : Ended c i it m true [] (.finished m.best (m.stats c i .stopCondition))
  | last : it + 1 = c.maxIterations →
      Ended c i it m false [] (.finished m.best (m.stats c i .maxIterations))
  | restarted {w' : Walk S} {P : List (ProblemCall S)} : it + 1 ≠ c.maxIterations →
      Walk.Restarted m w' P → Ended c i it m false P (.walking (it + 1) w')

/-- What iteration `it` of worker `i`'s walk `w`, begun from the shared state `sh` with the
stream `g`, did when it did not fail: its problem calls, its hook calls and the phase it left.
The checks before the move end the walk where it is and call nothing; an iteration that
runs draws a neighbour and its energy, shows its hooks the walk `m` its move reached, and
ends as `Walk.Ended` says. -/
inductive Iterated (cx : Setup σ ω S) (sh : Shared σ ω S) (i it : Nat) (g : Stream)
    (w : Walk S) : List (ProblemCall S) → List (HookCall S) → Phase S → Prop
  | spent : cx.config.maxIterations ≤ it →
      Iterated cx sh i it g w [] [] (.finished w.best (w.stats cx.config i .maxIterations))
  | aborted : it < cx.config.maxIterations → sh.abort = true →
      Iterated cx sh i it g w [] [] (.finished w.best (w.stats cx.config i .aborted))
  | cancelled : it < cx.config.maxIterations → sh.abort = false → cx.watchCancel = true →
      cx.observer.cancelRequested sh.observer = true →
      Iterated cx sh i it g w [] [] (.finished w.best (w.stats cx.config i .cancelled))
  | ran {m : Walk S} {y : Shared σ ω S × Stream} {c : S} {v : Float} {b : Bool}
      {P : List (ProblemCall S)} {p : Phase S} :
      it < cx.config.maxIterations → sh.abort = false →
      (cx.watchCancel && cx.observer.cancelRequested sh.observer) = false →
      Turn.moveKeep cx i it w (sh, g) = .ok m y → Walk.Moved cx.config it w m →
      v.isNaN = false → (cx.observer.stop.isSome = false → b = false) →
      Walk.Ended cx.config i it m b P p →
      Iterated cx sh i it g w (.neighbor w.current (.ok c) :: .energy c (.ok v) :: P)
        (cx.hooksAt it m b) p

/-! ## Carrying results to the plain run -/

theorem Lockstep.ok_of_left {ε A B α : Type} {Q : A → B → Prop} {m₁ : EStateM ε A α}
    {m₂ : EStateM ε B α} (h : Lockstep Q Eq m₁ m₂) {x₁ : A} {x₂ : B} (hq : Q x₁ x₂) {a : α}
    {y₁ : A} (hm : m₁ x₁ = .ok a y₁) : ∃ y₂, m₂ x₂ = .ok a y₂ ∧ Q y₁ y₂ := by
  have h := h x₁ x₂ hq
  rw [hm] at h
  revert h
  rcases m₂ x₂ with ⟨b, y₂⟩ | ⟨e, y₂⟩
  · rintro ⟨rfl, hy⟩
    exact ⟨y₂, rfl, hy⟩
  · exact fun h => (h : False).elim

theorem Setup.Twin.moveKeep {σ₁ σ₂ ω₁ ω₂ : Type}
    {Q : Shared σ₁ ω₁ S × Stream → Shared σ₂ ω₂ S × Stream → Prop} {cx₁ : Setup σ₁ ω₁ S}
    {cx₂ : Setup σ₂ ω₂ S} (h : Twin Q cx₁ cx₂) (i it : Nat) (w : Walk S) :
    Annealing.Lockstep Q Eq (Turn.moveKeep cx₁ i it w) (Turn.moveKeep cx₂ i it w) := by
  unfold Turn.moveKeep
  rw [h.config]
  exact Annealing.Lockstep.bind (h.move i it w) fun w₁ _ hw => hw ▸ h.keepBest _ it w₁

/-- Calls noted from empty logs are all the logs hold. -/
theorem Notes.of_audited {sh : Shared σ ω S} {g : Stream}
    {y : Shared (σ × List (ProblemCall S)) (ω × List (HookCall S)) S × Stream}
    {P : List (ProblemCall S)} {H : List (HookCall S)} (h : Notes (sh.audited, g) y P H) :
    y.1.problemCalls = P ∧ y.1.hookCalls = H := by
  have hp := h.problem
  have hh := h.hooks
  simp only [Shared.problemCalls_audited, Shared.hookCalls_audited, List.nil_append] at hp hh
  exact ⟨hp, hh⟩

/-! ## Calls that do not fail -/

section Quiet

variable {i it : Nat}

theorem failures_of_quiet {P P' : List (ProblemCall S)} {H H' : List (HookCall S)}
    (h : failures i it P H = []) : failures i it (P ++ P') (H ++ H') = failures i it P' H' := by
  rw [failures_append]
  obtain ⟨hP, hH⟩ := List.append_eq_nil_iff.1 h
  rw [hP, hH]
  rfl

theorem failures_nil_of {P : List (ProblemCall S)} {H : List (HookCall S)}
    (hP : failures i it P [] = []) (hH : failures i it [] H = []) : failures i it P H = [] := by
  simp only [failures, List.filterMap_nil, List.append_nil, List.nil_append] at hP hH ⊢
  rw [hP, hH]
  rfl

theorem ProblemCall.failure_energy_ok {s : S} {v : Float} (hv : v.isNaN = false) :
    (ProblemCall.energy s (.ok v)).failure i it = none := by
  simp only [ProblemCall.failure, hv, Bool.false_eq_true, ↓reduceIte]

/-- A neighbour with an energy that is no NaN. -/
theorem failures_neighbor {s c : S} {v : Float} (hv : v.isNaN = false) :
    failures i it [.neighbor s (.ok c), .energy c (.ok v)] ([] : List (HookCall S)) = [] := by
  simp only [failures, List.filterMap_cons, ProblemCall.failure_energy_ok hv,
    List.filterMap_nil, List.append_nil]
  rfl

/-- A fresh solution with an energy that is no NaN. -/
theorem failures_fresh {c : S} {v : Float} (hv : v.isNaN = false) :
    failures i it [.randomSolution (.ok c), .energy c (.ok v)] ([] : List (HookCall S)) = [] := by
  simp only [failures, List.filterMap_cons, ProblemCall.failure_energy_ok hv,
    List.filterMap_nil, List.append_nil]
  rfl

theorem failures_hooksAt (cx : Setup σ ω S) (t : Nat) (w : Walk S) (b : Bool) :
    failures i it ([] : List (ProblemCall S)) (cx.hooksAt t w b) = [] := by
  unfold Setup.hooksAt failures
  split <;> split <;> rfl

/-- An iteration that did not fail noted no failing call. -/
theorem Iterated.quiet {cx : Setup σ ω S} {sh : Shared σ ω S} {g : Stream} {w : Walk S}
    {P : List (ProblemCall S)} {H : List (HookCall S)} {p : Phase S}
    (h : Iterated cx sh i it g w P H p) : failures i it P H = [] := by
  cases h with
  | spent => rfl
  | aborted => rfl
  | cancelled => rfl
  | @ran m _ c v b P' _ _ _ _ _ _ hv _ hend =>
      have hP' : failures i it P' [] = [] := by
        cases hend with
        | stopped => rfl
        | last => rfl
        | restarted _ hres =>
            rcases hres.schedule with ⟨-, -, rfl⟩ | ⟨-, f, v', reg, hv', -, rfl⟩
            · rfl
            · exact failures_fresh hv'
      have hmoved : failures i it ([.neighbor w.current (.ok c), .energy c (.ok v)] ++ P')
          ([] ++ cx.hooksAt it m b) = failures i it P' (cx.hooksAt it m b) :=
        failures_of_quiet (failures_neighbor hv)
      exact hmoved.trans (failures_nil_of hP' (failures_hooksAt cx it m b))

end Quiet

/-- An iteration that did not fail leaves a finished or walking worker. -/
theorem Iterated.ne_failed {cx : Setup σ ω S} {sh : Shared σ ω S} {i it : Nat} {g : Stream}
    {w : Walk S} {P : List (ProblemCall S)} {H : List (HookCall S)} {p : Phase S}
    (h : Iterated cx sh i it g w P H p) (e : RunError) : p ≠ .failed e := by
  cases h with
  | spent => nofun
  | aborted => nofun
  | cancelled => nofun
  | ran _ _ _ _ _ _ _ hend => cases hend <;> nofun

/-- Cooling the adaptive controller leaves what a restart did as it was. -/
theorem Walk.Restarted.cool {m w' : Walk S} {P : List (ProblemCall S)}
    (h : Walk.Restarted m w' P) :
    Walk.Restarted m { w' with controller := w'.controller.map (·.cool) } P :=
  ⟨h.accepted, h.improving, h.iterations, h.history, h.schedule⟩

namespace Turn

variable {x y : Shared (σ × List (ProblemCall S)) (ω × List (HookCall S)) S × Stream}
  {i it : Nat}

theorem moveKeep_audit_ok {cx : Setup σ ω S} {w m : Walk S}
    (h : Turn.moveKeep cx.audited i it w x = .ok m y) :
    ∃ c v, v.isNaN = false ∧ Notes x y [.neighbor w.current (.ok c), .energy c (.ok v)] [] ∧
      Walk.Moved cx.config it w m := by
  obtain ⟨w₁, y₁, hmove, hkeep⟩ := bind_eq_ok.1 h
  obtain ⟨c, v, hv, hn, hres, hhist, hmoves⟩ := move_audit_ok hmove
  obtain ⟨hp, ho, -, -, hacc, himp, hres', hit, hhist'⟩ := keepBest_walk hkeep
  refine ⟨c, v, hv, (hn.trans (Notes.of_eq hp ho)), ⟨hres'.trans hres, hit, ?_, ?_⟩⟩
  · rw [hhist', hhist]
    rfl
  · rw [hacc, himp]
    exact hmoves

theorem restart_audit_restarted {cx : Setup σ ω S} {w w' : Walk S}
    (h : Turn.restart cx.audited i it w x = .ok w' y) :
    ∃ P, Notes x y P [] ∧ Walk.Restarted w w' P := by
  obtain ⟨hacc, himp, hit, hhist, hsched⟩ := restart_audit_ok h
  rcases hsched with ⟨hdue, hr, hn⟩ | ⟨hdue, f, v, reg, hv, hr, hn⟩
  · exact ⟨[], hn, hacc, himp, hit, hhist, .inl ⟨hdue, hr, rfl⟩⟩
  · exact ⟨_, hn, hacc, himp, hit, hhist, .inr ⟨hdue, f, v, reg, hv, hr, rfl⟩⟩

/-- Every iteration of an audited run that does not fail is one of the exits of `Iterated`,
with the calls its logs hold. -/
theorem iterate_audit_ok {cx : Setup σ ω S} {sh : Shared σ ω S} {g : Stream} {w : Walk S}
    {p : Phase S} (h : Turn.iterate cx.audited i it w (sh.audited, g) = .ok p y) :
    Iterated cx sh i it g w y.1.problemCalls y.1.hookCalls p := by
  unfold Turn.iterate at h
  obtain ⟨r, y₁, hadv, hrest⟩ := bind_eq_ok.1 h
  clear h
  unfold Turn.advance at hadv
  dsimp only at hadv
  -- the three checks before the move
  split at hadv
  · next hover =>
      obtain ⟨rfl, rfl⟩ := EStateM.Result.ok.inj hadv
      obtain ⟨rfl, rfl⟩ := EStateM.Result.ok.inj hrest
      exact .spent hover
  rename_i hover
  have hlt : it < cx.config.maxIterations := Nat.lt_of_not_le hover
  obtain ⟨sh', y₀, hshared, hrest₀⟩ := bind_eq_ok.1 hadv
  obtain ⟨rfl, rfl⟩ := EStateM.Result.ok.inj hshared
  clear hadv
  split at hrest₀
  · next habort =>
      obtain ⟨rfl, rfl⟩ := EStateM.Result.ok.inj hrest₀
      obtain ⟨rfl, rfl⟩ := EStateM.Result.ok.inj hrest
      exact .aborted hlt habort
  rename_i habort
  have habort : sh.abort = false := Bool.eq_false_iff.2 habort
  split at hrest₀
  · next hcancel =>
      have hcancel : (cx.watchCancel && cx.observer.cancelRequested sh.observer) = true := hcancel
      obtain ⟨hwatch, hreq⟩ := Bool.and_eq_true _ _ ▸ hcancel
      obtain ⟨rfl, rfl⟩ := EStateM.Result.ok.inj hrest₀
      obtain ⟨rfl, rfl⟩ := EStateM.Result.ok.inj hrest
      exact .cancelled hlt habort hwatch hreq
  rename_i hcancel
  have hcancel : (cx.watchCancel && cx.observer.cancelRequested sh.observer) = false :=
    Bool.eq_false_iff.2 hcancel
  -- the move and the keeping of the best, read in the plain run as well
  obtain ⟨w₁, y₂, hmove, hrest₂⟩ := bind_eq_ok.1 hrest₀
  obtain ⟨m, y₃, hkeep, hrest₃⟩ := bind_eq_ok.1 hrest₂
  obtain ⟨b, y₄, hobserve, hrest₄⟩ := bind_eq_ok.1 hrest₃
  clear hrest₀ hrest₂ hrest₃
  have hmk : Turn.moveKeep cx.audited i it w (sh.audited, g) = .ok m y₃ :=
    bind_eq_ok.2 ⟨w₁, y₂, hmove, hkeep⟩
  obtain ⟨c, v, hv, hn₁, hmoved⟩ := moveKeep_audit_ok hmk
  have hq : Unaudits (sh.audited, g) (sh.audited.unaudited, g) := rfl
  obtain ⟨y', hplain, -⟩ := (cx.twin_audited.moveKeep i it w).ok_of_left hq hmk
  obtain ⟨hn₂, hstop⟩ := observe_audit_ok hobserve
  have hn := hn₁.trans hn₂
  -- the stop hook, the last iteration, or the restart
  split at hrest₄
  · next hb =>
      obtain ⟨rfl, rfl⟩ := EStateM.Result.ok.inj hrest₄
      obtain ⟨rfl, rfl⟩ := EStateM.Result.ok.inj hrest
      obtain ⟨hP, hH⟩ := Notes.of_audited hn
      rw [hP, hH, List.append_nil, List.nil_append]
      cases hb
      exact .ran hlt habort hcancel hplain hmoved hv hstop .stopped
  rename_i hb
  have hb : b = false := Bool.eq_false_iff.2 hb
  subst hb
  split at hrest₄
  · next hlast =>
      obtain ⟨rfl, rfl⟩ := EStateM.Result.ok.inj hrest₄
      obtain ⟨rfl, rfl⟩ := EStateM.Result.ok.inj hrest
      obtain ⟨hP, hH⟩ := Notes.of_audited hn
      rw [hP, hH, List.append_nil, List.nil_append]
      exact .ran hlt habort hcancel hplain hmoved hv hstop (.last hlast)
  · next hlast =>
      obtain ⟨rfl, rfl⟩ := EStateM.Result.ok.inj hrest₄
      obtain ⟨w₂, y₅, hrestart, hcool⟩ := bind_eq_ok.1 hrest
      obtain ⟨rfl, rfl⟩ := EStateM.Result.ok.inj hcool
      obtain ⟨P, hn₃, hres⟩ := restart_audit_restarted hrestart
      obtain ⟨hP, hH⟩ := Notes.of_audited (hn.trans hn₃)
      rw [hP, hH, List.append_nil, List.nil_append, List.append_nil]
      exact .ran hlt habort hcancel hplain hmoved hv hstop (.restarted hlast hres.cool)

/-- A failed iteration of an audited run fails on its one failing call. -/
theorem iterate_audit_error {cx : Setup σ ω S} {w : Walk S} {e : RunError}
    (h : Turn.iterate cx.audited i it w x = .error e y) :
    ∃ P H, Notes x y P H ∧ failures i it P H = [e] := by
  unfold Turn.iterate at h
  rcases bind_eq_error.1 h with hadv | ⟨r, y₁, hadv, hrest⟩
  · -- the iteration failed before its restart: in its move or in its hooks
    unfold Turn.advance at hadv
    dsimp only at hadv
    split at hadv
    · cases hadv
    rcases bind_eq_error.1 hadv with hshared | ⟨sh', y₀, hshared, hrest₀⟩
    · cases hshared
    obtain ⟨rfl, rfl⟩ := EStateM.Result.ok.inj hshared
    split at hrest₀
    · cases hrest₀
    split at hrest₀
    · cases hrest₀
    rcases bind_eq_error.1 hrest₀ with hmove | ⟨w₁, y₂, hmove, hrest₂⟩
    · obtain ⟨P, hn, hf⟩ := move_audit_error hmove
      exact ⟨P, [], hn, hf⟩
    rcases bind_eq_error.1 hrest₂ with hkeep | ⟨m, y₃, hkeep, hrest₃⟩
    · exact (keepBest_never_fails hkeep).elim
    have hmk : Turn.moveKeep cx.audited i it w x = .ok m y₃ :=
      bind_eq_ok.2 ⟨w₁, y₂, hmove, hkeep⟩
    obtain ⟨c, v, hv, hn₁, -⟩ := moveKeep_audit_ok hmk
    rcases bind_eq_error.1 hrest₃ with hobserve | ⟨b, y₄, hobserve, hrest₄⟩
    · obtain ⟨H, hn₂, hf⟩ := observe_audit_error hobserve
      exact ⟨_, _, hn₁.trans hn₂, (failures_of_quiet (failures_neighbor hv)).trans hf⟩
    split at hrest₄
    · cases hrest₄
    split at hrest₄ <;> cases hrest₄
  · -- the iteration ran, quietly, and its restart failed
    unfold Turn.advance at hadv
    dsimp only at hadv
    split at hadv
    · obtain ⟨rfl, rfl⟩ := EStateM.Result.ok.inj hadv
      cases hrest
    obtain ⟨sh', y₀, hshared, hrest₀⟩ := bind_eq_ok.1 hadv
    obtain ⟨rfl, rfl⟩ := EStateM.Result.ok.inj hshared
    split at hrest₀
    · obtain ⟨rfl, rfl⟩ := EStateM.Result.ok.inj hrest₀
      cases hrest
    split at hrest₀
    · obtain ⟨rfl, rfl⟩ := EStateM.Result.ok.inj hrest₀
      cases hrest
    obtain ⟨w₁, y₂, hmove, hrest₂⟩ := bind_eq_ok.1 hrest₀
    obtain ⟨m, y₃, hkeep, hrest₃⟩ := bind_eq_ok.1 hrest₂
    obtain ⟨b, y₄, hobserve, hrest₄⟩ := bind_eq_ok.1 hrest₃
    have hmk : Turn.moveKeep cx.audited i it w x = .ok m y₃ :=
      bind_eq_ok.2 ⟨w₁, y₂, hmove, hkeep⟩
    obtain ⟨c, v, hv, hn₁, -⟩ := moveKeep_audit_ok hmk
    obtain ⟨hn₂, -⟩ := observe_audit_ok hobserve
    have hquiet : failures i it ([.neighbor w.current (.ok c), .energy c (.ok v)] ++ [])
        ([] ++ cx.hooksAt it m b) = [] :=
      (failures_of_quiet (failures_neighbor hv)).trans (failures_hooksAt cx it m b)
    split at hrest₄
    · obtain ⟨rfl, rfl⟩ := EStateM.Result.ok.inj hrest₄
      cases hrest
    split at hrest₄
    · obtain ⟨rfl, rfl⟩ := EStateM.Result.ok.inj hrest₄
      cases hrest
    obtain ⟨rfl, rfl⟩ := EStateM.Result.ok.inj hrest₄
    rcases bind_eq_error.1 hrest with hrestart | ⟨w₂, y₅, hrestart, hcool⟩
    · obtain ⟨-, P, hn₃, hf⟩ := restart_audit_error hrestart
      exact ⟨_, _, (hn₁.trans hn₂).trans hn₃, (failures_of_quiet hquiet).trans hf⟩
    · cases hcool

end Turn

/-! ## A worker's step -/

/-- The counters of a walk that has just begun: nothing counted, and a fresh restart
schedule. -/
structure Walk.Fresh (c : Config) (w : Walk S) : Prop where
  iterations : w.iterations = 0
  accepted : w.accepted = 0
  improving : w.improving = 0
  history : w.history = #[]
  restarter : w.restarter = Restarter.start c.restartInterval

namespace Worker

theorem step_eq_audited (cx : Setup σ ω S) (sh : Shared σ ω S) (wk : Worker S) :
    (Worker.step cx sh wk).2 = (Worker.step cx.audited sh.audited wk).2 := by
  have h := Worker.step_unaudited cx sh.audited wk
  rw [Shared.unaudited_audited] at h
  rw [h]

variable {cx : Setup σ ω S} {sh : Shared σ ω S} {i t : Nat} {g : Stream} {w : Walk S}

/-- A walking worker's step that does not fail is one of the exits of `Iterated`, with the
calls it made. -/
theorem step_walking (hok : ∀ e, (Worker.step cx sh ⟨i, g, .walking t w⟩).2.phase ≠ .failed e) :
    Iterated cx sh i t g w (Worker.problemCalls cx sh ⟨i, g, .walking t w⟩)
      (Worker.hookCalls cx sh ⟨i, g, .walking t w⟩)
      (Worker.step cx sh ⟨i, g, .walking t w⟩).2.phase := by
  rw [step_eq_audited] at hok ⊢
  unfold Worker.problemCalls Worker.hookCalls
  simp only [Worker.step, id] at hok ⊢
  rcases h : Turn.iterate cx.audited i t w (sh.audited, g) with ⟨p, y⟩ | ⟨e, y⟩ <;>
    simp only [h] at hok ⊢
  · exact Turn.iterate_audit_ok h
  · exact absurd rfl (hok e)

/-- A walking worker's step that fails does so on its one failing call. -/
theorem step_walking_failed {e : RunError}
    (h : (Worker.step cx sh ⟨i, g, .walking t w⟩).2.phase = .failed e) :
    failures i t (Worker.problemCalls cx sh ⟨i, g, .walking t w⟩)
      (Worker.hookCalls cx sh ⟨i, g, .walking t w⟩) = [e] := by
  rw [step_eq_audited] at h
  unfold Worker.problemCalls Worker.hookCalls
  simp only [Worker.step, id] at h ⊢
  rcases hi : Turn.iterate cx.audited i t w (sh.audited, g) with ⟨p, y⟩ | ⟨e', y⟩ <;>
    simp only [hi] at h ⊢
  · exact absurd h ((Turn.iterate_audit_ok hi).ne_failed e)
  · cases h
    obtain ⟨P, H, hn, hf⟩ := Turn.iterate_audit_error hi
    obtain ⟨hP, hH⟩ := Notes.of_audited hn
    show failures i t y.1.problemCalls y.1.hookCalls = [e]
    rw [hP, hH]
    exact hf

/-- A worker's start that does not fail draws a solution and its energy, which is no NaN,
calls no hook, and begins a fresh walk at iteration `0`. -/
theorem step_start (hok : ∀ e, (Worker.step cx sh ⟨i, g, .start⟩).2.phase ≠ .failed e) :
    ∃ s v w, v.isNaN = false ∧
      Worker.problemCalls cx sh ⟨i, g, .start⟩ = [.randomSolution (.ok s), .energy s (.ok v)] ∧
      Worker.hookCalls cx sh ⟨i, g, .start⟩ = [] ∧
      (Worker.step cx sh ⟨i, g, .start⟩).2.phase = .walking 0 w ∧ Walk.Fresh cx.config w := by
  rw [step_eq_audited] at hok ⊢
  unfold Worker.problemCalls Worker.hookCalls
  simp only [Worker.step] at hok ⊢
  rcases h : Turn.begin cx.audited i (sh.audited, g) with ⟨w, y⟩ | ⟨e, y⟩ <;>
    simp only [h] at hok ⊢
  · obtain ⟨s, v, hv, hn, hit, hacc, himp, hhist, hres⟩ := Turn.begin_audit_ok h
    obtain ⟨hP, hH⟩ := Notes.of_audited hn
    exact ⟨s, v, w, hv, hP, hH, rfl, ⟨hit, hacc, himp, hhist, hres⟩⟩
  · exact absurd rfl (hok e)

/-- A worker's start that fails does so on its one failing call, or, every call answered,
on the reservation of the adaptive controller's window, which panics. -/
theorem step_start_failed {e : RunError}
    (h : (Worker.step cx sh ⟨i, g, .start⟩).2.phase = .failed e) :
    failures i 0 (Worker.problemCalls cx sh ⟨i, g, .start⟩)
        (Worker.hookCalls cx sh ⟨i, g, .start⟩) = [e] ∨
      failures i 0 (Worker.problemCalls cx sh ⟨i, g, .start⟩)
          (Worker.hookCalls cx sh ⟨i, g, .start⟩) = [] ∧
        cx.config.strategy = .adaptive ∧ ∃ m, Adaptive.Controller.reserve cx.config.adaptive
          cx.config.initialTemperature cx.config.coolingRate = .error m ∧
          e = .workerPanicked i m := by
  rw [step_eq_audited] at h
  unfold Worker.problemCalls Worker.hookCalls
  simp only [Worker.step] at h ⊢
  rcases hb : Turn.begin cx.audited i (sh.audited, g) with ⟨w, y⟩ | ⟨e', y⟩ <;>
    simp only [hb] at h ⊢
  · cases h
  · cases h
    show failures i 0 y.1.problemCalls y.1.hookCalls = [e] ∨
      failures i 0 y.1.problemCalls y.1.hookCalls = [] ∧ _
    rcases Turn.begin_audit_error hb with ⟨P, hn, hf⟩ | ⟨P, m, hn, hf, hadaptive, hres, he⟩
    · obtain ⟨hP, hH⟩ := Notes.of_audited hn
      rw [hP, hH]
      exact .inl hf
    · obtain ⟨hP, hH⟩ := Notes.of_audited hn
      rw [hP, hH]
      exact .inr ⟨hf, hadaptive, m, hres, he⟩

end Worker

end Annealing
