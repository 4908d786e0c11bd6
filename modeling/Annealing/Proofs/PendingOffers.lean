import Annealing.Proofs.Interleaving

/-!
# Offers in flight

Between two accesses a worker may hold an energy that it has evaluated and not yet offered to
the register: its starting solution's, a new local best's, or a due restart's
(`Stage.pending`). Other threads act in between, so the register need not cover that energy
yet. The ledger of a logging run, which at every step boundary says that the register covers
every logged energy, holds at every access in a weaker form (`Interleaved.RunSound`): every
logged energy that is no NaN is covered by the register, or lies at or above an energy that some
thread is about to offer. The next access of such a thread makes the offer, after which the
register covers that energy, and with it every energy that waited on it.

The other parts of the ledger hold at every access: the register is one that offers reach and
holds a logged evaluation (`Stored`), which some thread holds as its best. Every thread's stage
is sound (`Stage.Sound`): its walk is one the register has seen, except while a new local best is
about to be kept, when the current solution lies below the best until it is offered.

What one access does is read off once per stage (`Stage.access_start_ok` and the lemmas after
it), and what it keeps is `Accesses`; `Interleaved.RunSound.run` carries the invariant over any
schedule. Once no thread has an offer in flight, and in particular once every thread is done,
the ledger of the coarse run holds again (`Interleaved.RunSound.ledger`).
-/

namespace Annealing

open Annealing.Random

variable {σ ω S : Type}

/-! ## Energies in flight, and sound stages -/

/-- The register is one that offers reach, and holds a logged evaluation. -/
structure Stored (log : List (S × Float)) (reg : Register S) : Prop where
  valid : reg.Valid
  stored : ∀ s e, reg.best = some (s, e) → (s, e) ∈ log

namespace Stage

/-- The energy a worker at this stage has evaluated and is about to offer to the register. -/
def pending : Stage S → Option Float
  | .offerStart _ e => some e
  | .keep _ w => if w.currentEnergy < w.bestEnergy then some w.currentEnergy else none
  | .offerFresh _ _ _ e => some e
  | .start | .evaluateStart _ | .walking .. | .checkCancel .. | .propose .. | .evaluate ..
  | .report .. | .askStop .. | .refresh .. | .evaluateFresh .. | .finished .. | .failed _ => none

/-- A stage the register has seen. A walk is sound, but while a new local best is about to be
kept the current solution may lie below the best: it is logged and no NaN. An energy about to be
offered is logged and no NaN, and a finished worker's best is logged and covered. -/
def Sound (log : List (S × Float)) (reg : Register S) : Stage S → Prop
  | .start | .evaluateStart _ | .failed _ => True
  | .offerStart s e => (s, e) ∈ log ∧ e.isNaN = false
  | .walking _ w | .checkCancel _ w | .propose _ w | .evaluate _ w _ | .report _ w
  | .askStop _ w | .refresh _ w | .evaluateFresh _ w _ => Walk.Sound log reg w
  | .keep _ w => (w.current, w.currentEnergy) ∈ log ∧ (w.best, w.bestEnergy) ∈ log ∧
      reg.Covers w.bestEnergy ∧ w.currentEnergy.isNaN = false
  | .offerFresh _ w fresh e => Walk.Sound log reg w ∧ (fresh, e) ∈ log ∧ e.isNaN = false
  | .finished best st => (best, st.bestEnergy) ∈ log ∧ reg.Covers st.bestEnergy

/-- A stage holds the solution `b` with its energy when the best of its walk, or the best it
reports, is `b`. As a failed phase, a failed stage holds everything. -/
def Holds (b : S × Float) : Stage S → Prop
  | .start | .evaluateStart _ | .offerStart .. => False
  | .walking _ w | .checkCancel _ w | .propose _ w | .evaluate _ w _ | .keep _ w | .report _ w
  | .askStop _ w | .refresh _ w | .evaluateFresh _ w _ | .offerFresh _ w _ _ =>
      (w.best, w.bestEnergy) = b
  | .finished best st => (best, st.bestEnergy) = b
  | .failed _ => True

theorem pending_of_done {st : Stage S} (h : st.done = true) : st.pending = none := by
  cases st <;> first | rfl | cases h

theorem Sound.later {x y : Shared (σ × List (S × Float)) ω S} {st : Stage S}
    (hs : st.Sound x.log x.register) (h : Later x y) : st.Sound y.log y.register := by
  cases st with
  | start | evaluateStart | failed => trivial
  | offerStart s e => exact ⟨h.log.subset hs.1, hs.2⟩
  | walking | checkCancel | propose | evaluate | report | askStop | refresh | evaluateFresh =>
      exact Walk.Sound.later hs h
  | keep t w => exact ⟨h.log.subset hs.1, h.log.subset hs.2.1, h.covers _ hs.2.2.1, hs.2.2.2⟩
  | offerFresh t w fresh e => exact ⟨Walk.Sound.later hs.1 h, h.log.subset hs.2.1, hs.2.2⟩
  | finished best st => exact ⟨h.log.subset hs.1, h.covers _ hs.2⟩

theorem finish_sound {log : List (S × Float)} {reg : Register S} {w : Walk S}
    (hs : Walk.Sound log reg w) (c : Config) (i : Nat) (t : Termination) :
    (finish c i w t).Sound log reg :=
  ⟨hs.best_mem, hs.covers⟩

/-- Where an iteration goes after its stop hook: its end, or, when it is not the last, its
restart or the next iteration, with the walk's solutions as they are. -/
theorem afterStop_cases (c : Config) (i t : Nat) (w : Walk S) (stop : Bool) :
    (∃ tm, afterStop c i t w stop = finish c i w tm) ∨
      ∃ w', w.SameSolutions w' ∧ t + 1 ≠ c.maxIterations ∧
        (afterStop c i t w stop = .refresh t w' ∨ afterStop c i t w stop = .walking (t + 1) w') := by
  unfold afterStop
  split
  · exact .inl ⟨_, rfl⟩
  split
  · exact .inl ⟨_, rfl⟩
  next hend =>
    rcases w.restarter.tick with ⟨_ | _, r⟩ <;> simp only [Bool.false_eq_true, ↓reduceIte]
    · refine .inr ⟨_, ?_, hend, .inr rfl⟩
      exact ⟨rfl, rfl, rfl, rfl⟩
    · refine .inr ⟨_, ?_, hend, .inl rfl⟩
      exact ⟨rfl, rfl, rfl, rfl⟩

end Stage

theorem Walk.Sound.same {log : List (S × Float)} {reg : Register S} {w w' : Walk S}
    (hs : Walk.Sound log reg w) (hw : w.SameSolutions w') : Walk.Sound log reg w' := by
  obtain ⟨hcur, hcurE, hbest, hbestE⟩ := hw
  exact ⟨hcur ▸ hcurE ▸ hs.current_mem, hbest ▸ hbestE ▸ hs.best_mem, hbestE ▸ hs.covers,
    hbestE ▸ hcurE ▸ hs.best_le⟩

/-! ## What one access does -/

theorem map_eq_ok {ε A α β : Type} {f : α → β} {m : EStateM ε A α} {x : A} {b : β} {y : A} :
    (f <$> m) x = .ok b y ↔ ∃ a, m x = .ok a y ∧ f a = b := by
  show EStateM.map f m x = _ ↔ _
  unfold EStateM.map
  rcases m x with ⟨a, z⟩ | ⟨e, z⟩
  · constructor
    · intro h
      cases h
      exact ⟨a, rfl, rfl⟩
    · rintro ⟨a', h, rfl⟩
      cases h
      rfl
  · constructor
    · intro h
      cases h
    · rintro ⟨a', h, -⟩
      cases h

theorem map_eq_error {ε A α β : Type} {f : α → β} {m : EStateM ε A α} {x : A} {e : ε} {y : A} :
    (f <$> m) x = .error e y ↔ m x = .error e y := by
  show EStateM.map f m x = _ ↔ _
  unfold EStateM.map
  rcases m x with ⟨a, z⟩ | ⟨e', z⟩
  · constructor
    · intro h
      cases h
    · intro h
      cases h
  · constructor
    · intro h
      cases h
      rfl
    · intro h
      cases h
      rfl

namespace Stage

variable {cx : Setup σ ω S} {i t : Nat} {w : Walk S} {st : Stage S} {e : RunError}
  {x y : Shared (σ × List (S × Float)) ω S × Stream}

theorem access_start_ok (h : (start : Stage S).access cx.recording i x = .ok st y) :
    Untracked x y ∧ ∃ s, st = .evaluateStart s := by
  obtain ⟨s, hs, rfl⟩ := map_eq_ok.1 h
  exact ⟨Turn.perform_lift_ok hs, s, rfl⟩

theorem access_start_error (h : (start : Stage S).access cx.recording i x = .error e y) :
    Untracked x y :=
  Turn.perform_lift_error (map_eq_error.1 h)

theorem access_evaluateStart_ok {s : S} (h : (evaluateStart s).access cx.recording i x = .ok st y) :
    ∃ v, st = .offerStart s v ∧ v.isNaN = false ∧ y.1.register = x.1.register ∧
      y.1.log = x.1.log ++ [(s, v)] := by
  obtain ⟨v, hv, rfl⟩ := map_eq_ok.1 h
  exact ⟨v, rfl, Turn.evaluate_ok hv⟩

theorem access_evaluateStart_error {s : S}
    (h : (evaluateStart s).access cx.recording i x = .error e y) : Quiet x y :=
  Turn.evaluate_error (map_eq_error.1 h)

/-- The offer of the starting solution, then the adaptive controller. -/
theorem access_offerStart_ok {s : S} {v : Float}
    (h : (offerStart s v).access cx.recording i x = .ok st y) :
    y.1.log = x.1.log ∧ y.1.register = (if v ≤ x.1.register.bestEnergy then
      (x.1.register.offer v s).2 else x.1.register) ∧
      ∃ w, st = .walking 0 w ∧ w.current = s ∧ w.currentEnergy = v ∧ w.best = s ∧
        w.bestEnergy = v := by
  obtain ⟨sh, g⟩ := x
  simp only [access] at h
  obtain ⟨u, y₁, hpublish, hrest⟩ := bind_eq_ok.1 h
  rw [Turn.publish_eq] at hpublish
  cases hpublish
  -- the controller is reserved or not; either way the walk starts at `s`
  split at hrest
  · generalize (Adaptive.Controller.reserve _ _ _ : Except String (Adaptive.Controller Float)) =
      reserved at hrest
    rcases reserved with message | ctl <;> dsimp only at hrest
    · obtain ⟨c, y₂, hthrow, -⟩ := bind_eq_ok.1 hrest
      cases hthrow
    · obtain ⟨c, y₂, hpure, hrest⟩ := bind_eq_ok.1 hrest
      cases hpure
      cases hrest
      exact ⟨rfl, rfl, _, rfl, rfl, rfl, rfl, rfl⟩
  · obtain ⟨c, y₂, hpure, hrest⟩ := bind_eq_ok.1 hrest
    cases hpure
    cases hrest
    exact ⟨rfl, rfl, _, rfl, rfl, rfl, rfl, rfl⟩

/-- The starting solution is offered before the reservation of the controller can fail. -/
theorem access_offerStart_error {s : S} {v : Float}
    (h : (offerStart s v).access cx.recording i x = .error e y) :
    y.1.log = x.1.log ∧ y.1.register = (if v ≤ x.1.register.bestEnergy then
      (x.1.register.offer v s).2 else x.1.register) := by
  obtain ⟨sh, g⟩ := x
  simp only [access] at h
  rcases bind_eq_error.1 h with hpublish | ⟨u, y₁, hpublish, hrest⟩
  · rw [Turn.publish_eq] at hpublish
    cases hpublish
  rw [Turn.publish_eq] at hpublish
  cases hpublish
  split at hrest
  · generalize (Adaptive.Controller.reserve _ _ _ : Except String (Adaptive.Controller Float)) =
      reserved at hrest
    rcases reserved with message | ctl <;> dsimp only at hrest
    · rcases bind_eq_error.1 hrest with hthrow | ⟨c, y₂, hthrow, -⟩
      · cases hthrow
        exact ⟨rfl, rfl⟩
      · cases hthrow
    · rcases bind_eq_error.1 hrest with hpure | ⟨c, y₂, hpure, hrest⟩
      · cases hpure
      · cases hrest
  · rcases bind_eq_error.1 hrest with hpure | ⟨c, y₂, hpure, hrest⟩
    · cases hpure
    · cases hrest

theorem access_walking_ok {cx : Setup σ ω S} {x y : Shared σ ω S × Stream}
    (h : (walking t w).access cx i x = .ok st y) :
    y = x ∧ (st = .checkCancel t w ∧ t < cx.config.maxIterations ∨
      ∃ tm, st = finish cx.config i w tm) := by
  simp only [access] at h
  split at h
  · cases h
    exact ⟨rfl, .inr ⟨_, rfl⟩⟩
  · next hlt =>
      obtain ⟨sh, y₀, hshared, hrest⟩ := bind_eq_ok.1 h
      cases hshared
      split at hrest <;> cases hrest
      · exact ⟨rfl, .inr ⟨_, rfl⟩⟩
      · exact ⟨rfl, .inl ⟨rfl, Nat.lt_of_not_le hlt⟩⟩

theorem access_walking_error {cx : Setup σ ω S} {x y : Shared σ ω S × Stream}
    (h : (walking t w).access cx i x = .error e y) : False := by
  simp only [access] at h
  split at h
  · cases h
  rcases bind_eq_error.1 h with hshared | ⟨sh, y₀, hshared, hrest⟩
  · cases hshared
  · split at hrest <;> cases hrest

theorem access_checkCancel_ok {cx : Setup σ ω S} {x y : Shared σ ω S × Stream}
    (h : (checkCancel t w).access cx i x = .ok st y) :
    y = x ∧ (st = .propose t w ∨ ∃ tm, st = finish cx.config i w tm) := by
  simp only [access] at h
  obtain ⟨sh, y₀, hshared, hrest⟩ := bind_eq_ok.1 h
  cases hshared
  split at hrest <;> cases hrest
  · exact ⟨rfl, .inr ⟨_, rfl⟩⟩
  · exact ⟨rfl, .inl rfl⟩

theorem access_checkCancel_error {cx : Setup σ ω S} {x y : Shared σ ω S × Stream}
    (h : (checkCancel t w).access cx i x = .error e y) : False := by
  simp only [access] at h
  rcases bind_eq_error.1 h with hshared | ⟨sh, y₀, hshared, hrest⟩
  · cases hshared
  · split at hrest <;> cases hrest

theorem access_propose_ok (h : (propose t w).access cx.recording i x = .ok st y) :
    Untracked x y ∧ ∃ w' cand, st = .evaluate t w' cand ∧ w.SameSolutions w' := by
  simp only [access] at h
  obtain ⟨cand, hcand, rfl⟩ := map_eq_ok.1 h
  exact ⟨Turn.perform_lift_ok hcand, _, cand, rfl, rfl, rfl, rfl, rfl⟩

theorem access_propose_error (h : (propose t w).access cx.recording i x = .error e y) :
    Untracked x y := by
  simp only [access] at h
  exact Turn.perform_lift_error (map_eq_error.1 h)

/-- The evaluation of the neighbour and the decision: the neighbour is logged, and taken, or
the current solution is kept and then the neighbour is not at or below it. The best is left
alone. -/
theorem access_evaluate_ok {cand : S} (h : (evaluate t w cand).access cx.recording i x = .ok st y) :
    y.1.register = x.1.register ∧ ∃ c w', st = .keep t w' ∧ c.isNaN = false ∧
      y.1.log = x.1.log ++ [(cand, c)] ∧ w'.best = w.best ∧ w'.bestEnergy = w.bestEnergy ∧
      (w'.current = cand ∧ w'.currentEnergy = c ∨
        w'.current = w.current ∧ w'.currentEnergy = w.currentEnergy ∧ ¬ c ≤ w.currentEnergy) := by
  simp only [access] at h
  obtain ⟨c, y₁, heval, hrest⟩ := bind_eq_ok.1 h
  obtain ⟨taken, y₂, hdraw, hrest⟩ := bind_eq_ok.1 hrest
  obtain ⟨hc, hreg, hlog⟩ := Turn.evaluate_ok heval
  obtain ⟨sh₁, g₁⟩ := y₁
  -- the draw changes only the stream; a neighbour at or below the current is taken
  simp only [Turn.draw] at hdraw
  cases hdraw
  cases hrest
  have htaken : c ≤ w.currentEnergy →
      (Acceptance.decide w.currentEnergy c w.temperature g₁).1 = true := fun hle => by
    rw [Turn.Acceptance.decide_of_le _ _ hle]
  generalize (Acceptance.decide w.currentEnergy c w.temperature g₁).1 = taken at htaken ⊢
  cases taken
  · exact ⟨hreg, c, _, rfl, hc, hlog, rfl, rfl,
      .inr ⟨rfl, rfl, fun hle => Bool.false_ne_true (htaken hle)⟩⟩
  · exact ⟨hreg, c, _, rfl, hc, hlog, rfl, rfl, .inl ⟨rfl, rfl⟩⟩

theorem access_evaluate_error {cand : S}
    (h : (evaluate t w cand).access cx.recording i x = .error e y) : Quiet x y := by
  simp only [access] at h
  rcases bind_eq_error.1 h with heval | ⟨c, y₁, heval, hrest⟩
  · exact Turn.evaluate_error heval
  -- the draw cannot fail
  obtain ⟨sh₁, g₁⟩ := y₁
  rcases bind_eq_error.1 hrest with hdraw | ⟨taken, y₂, hdraw, hpure⟩
  · cases hdraw
  · cases hpure

theorem access_keep_ok (h : (keep t w).access cx.recording i x = .ok st y) :
    ∃ w', st = .report t w' ∧ Turn.keepBest cx.config t w x = .ok w' y := by
  obtain ⟨w', hkeep, rfl⟩ := map_eq_ok.1 h
  exact ⟨w', rfl, hkeep⟩

theorem access_keep_error (h : (keep t w).access cx.recording i x = .error e y) : False :=
  Turn.keepBest_error (map_eq_error.1 h)

theorem access_report_ok (h : (report t w).access cx.recording i x = .ok st y) :
    Untracked x y ∧ st = .askStop t w := by
  simp only [access] at h
  rcases hp : cx.recording.observer.progress with _ | f <;> rw [hp] at h
  · cases h
    exact ⟨⟨rfl, rfl⟩, rfl⟩
  · obtain ⟨u, y₁, hhook, hrest⟩ := bind_eq_ok.1 h
    cases hrest
    exact ⟨Turn.hook_ok hhook, rfl⟩

theorem access_report_error (h : (report t w).access cx.recording i x = .error e y) :
    Untracked x y := by
  simp only [access] at h
  rcases hp : cx.recording.observer.progress with _ | f <;> rw [hp] at h
  · cases h
  · rcases bind_eq_error.1 h with hhook | ⟨u, y₁, hhook, hrest⟩
    · exact Turn.hook_error hhook
    · cases hrest

theorem access_askStop_ok (h : (askStop t w).access cx.recording i x = .ok st y) :
    Untracked x y ∧ ∃ stop, st = afterStop cx.config i t w stop := by
  simp only [access] at h
  obtain ⟨stop, hstop, rfl⟩ := map_eq_ok.1 h
  refine ⟨?_, stop, rfl⟩
  rcases hs : cx.recording.observer.stop with _ | f <;> rw [hs] at hstop
  · cases hstop
    exact ⟨rfl, rfl⟩
  · exact Turn.hook_ok hstop

theorem access_askStop_error (h : (askStop t w).access cx.recording i x = .error e y) :
    Untracked x y := by
  simp only [access] at h
  have hstop := map_eq_error.1 h
  rcases hs : cx.recording.observer.stop with _ | f <;> rw [hs] at hstop
  · cases hstop
  · exact Turn.hook_error hstop

theorem access_refresh_ok (h : (refresh t w).access cx.recording i x = .ok st y) :
    Untracked x y ∧ ∃ fresh, st = .evaluateFresh t w fresh := by
  obtain ⟨fresh, hfresh, rfl⟩ := map_eq_ok.1 h
  exact ⟨Turn.perform_lift_ok hfresh, fresh, rfl⟩

theorem access_refresh_error (h : (refresh t w).access cx.recording i x = .error e y) :
    Untracked x y :=
  Turn.perform_lift_error (map_eq_error.1 h)

theorem access_evaluateFresh_ok {fresh : S}
    (h : (evaluateFresh t w fresh).access cx.recording i x = .ok st y) :
    ∃ f, st = .offerFresh t w fresh f ∧ f.isNaN = false ∧ y.1.register = x.1.register ∧
      y.1.log = x.1.log ++ [(fresh, f)] := by
  obtain ⟨f, hf, rfl⟩ := map_eq_ok.1 h
  exact ⟨f, rfl, Turn.evaluate_ok hf⟩

theorem access_evaluateFresh_error {fresh : S}
    (h : (evaluateFresh t w fresh).access cx.recording i x = .error e y) : Quiet x y :=
  Turn.evaluate_error (map_eq_error.1 h)

/-- The offer of a restart: the register sees the fresh solution, which the walk adopts as
current and best exactly when the register takes it. -/
theorem access_offerFresh_ok {fresh : S} {f : Float}
    (h : (offerFresh t w fresh f).access cx.recording i x = .ok st y) :
    y.1.log = x.1.log ∧ y.1.register = (x.1.register.offer f fresh).2 ∧
      ∃ w', st = .walking (t + 1) w' ∧
        ((x.1.register.offer f fresh).1 = true ∧ w'.current = fresh ∧ w'.currentEnergy = f ∧
            w'.best = fresh ∧ w'.bestEnergy = f ∨
          (x.1.register.offer f fresh).1 = false ∧ w.SameSolutions w') := by
  obtain ⟨sh, g⟩ := x
  simp only [access] at h
  obtain ⟨z, y₁, hget, hrest⟩ := bind_eq_ok.1 h
  cases hget
  dsimp only at hrest
  have hadopted := w.restarter.offer_adopted fresh f sh.register
  have hregister := w.restarter.offer_register fresh f sh.register
  rcases hoffer : w.restarter.offer fresh f sh.register with ⟨adopted, r', reg'⟩
  rw [hoffer] at hrest hadopted hregister
  dsimp only at hrest hadopted hregister
  obtain ⟨u, y₂, hset, hrest⟩ := bind_eq_ok.1 hrest
  cases hset
  -- the walk adopts the fresh solution exactly when the register took it
  cases htake : (sh.register.offer f fresh).1 <;> rw [htake] at hadopted <;> subst hadopted <;>
    obtain ⟨w', y₃, hadopt, hrest⟩ := bind_eq_ok.1 hrest <;> cases hadopt <;> cases hrest
  · exact ⟨rfl, hregister, _, rfl, .inr ⟨rfl, rfl, rfl, rfl, rfl⟩⟩
  · exact ⟨rfl, hregister, _, rfl, .inl ⟨rfl, rfl, rfl, rfl, rfl⟩⟩

theorem access_offerFresh_error {fresh : S} {f : Float}
    (h : (offerFresh t w fresh f).access cx.recording i x = .error e y) : False := by
  obtain ⟨sh, g⟩ := x
  simp only [access] at h
  rcases bind_eq_error.1 h with hget | ⟨z, y₁, hget, hrest⟩
  · cases hget
  cases hget
  rcases hoffer : w.restarter.offer fresh f sh.register with ⟨adopted, r', reg'⟩
  rw [hoffer] at hrest
  dsimp only at hrest
  rcases bind_eq_error.1 hrest with hset | ⟨u, y₂, hset, hrest⟩
  · cases hset
  rcases adopted with _ | ⟨s, v⟩ <;>
    rcases bind_eq_error.1 hrest with hadopt | ⟨w', y₃, hadopt, hpure⟩ <;>
    first | cases hpure | cases hadopt

end Stage

/-! ## What one access keeps -/

/-- What a thread's access keeps, taking the shared state from `x` to `y` and the thread from
stage `st` to `st'`: the register stays one that offers reach, holding a logged evaluation, and
only falls, and the log only grows; each evaluation the access logs is covered by the register or
awaits the thread's next offer; the offer the thread had in flight is made; the new stage is
sound; and whoever held the register's best holds it still, unless this thread took it over. -/
structure Accesses (x y : Shared (σ × List (S × Float)) ω S) (st st' : Stage S) : Prop where
  stored : Stored y.log y.register
  later : Later x y
  logged : ∃ extra, y.log = x.log ++ extra ∧ ∀ q ∈ extra, q.2.isNaN = false →
    y.register.Covers q.2 ∨ ∃ p, st'.pending = some p ∧ p ≤ q.2
  offered : ∀ p, st.pending = some p → y.register.Covers p
  sound : st'.Sound y.log y.register
  held : ∀ b, y.register.best = some b →
    st'.Holds b ∨ x.register.best = some b ∧ (st.Holds b → st'.Holds b)

namespace Accesses

variable {x y : Shared (σ × List (S × Float)) ω S} {st st' : Stage S}

/-- An access that touches neither the register nor the log, from a stage with no offer in
flight. -/
theorem untracked (hx : Stored x.log x.register) (hreg : y.register = x.register)
    (hlog : y.log = x.log) (hp : st.pending = none) (hs : st'.Sound x.log x.register)
    (hh : ∀ b, st.Holds b → st'.Holds b) : Accesses x y st st' where
  stored := by rw [hreg, hlog]; exact hx
  later := Later.of_append hreg (hlog.trans (List.append_nil _).symm)
  logged := ⟨[], hlog.trans (List.append_nil _).symm, by simp⟩
  offered p h := by rw [hp] at h; cases h
  sound := by rw [hreg, hlog]; exact hs
  held b hb := .inr ⟨hreg ▸ hb, hh b⟩

theorem refl (hx : Stored x.log x.register) (hs : st.Sound x.log x.register)
    (hp : st.pending = none) : Accesses x x st st :=
  untracked hx rfl rfl hp hs fun _ h => h

/-- An access that logs one evaluation and leaves the register alone, from a stage with no offer
in flight. -/
theorem logs (hx : Stored x.log x.register) (hreg : y.register = x.register) {q : S × Float}
    (hlog : y.log = x.log ++ [q])
    (hq : q.2.isNaN = false → x.register.Covers q.2 ∨ ∃ p, st'.pending = some p ∧ p ≤ q.2)
    (hp : st.pending = none) (hs : st'.Sound y.log y.register)
    (hh : ∀ b, st.Holds b → st'.Holds b) : Accesses x y st st' where
  stored := ⟨hreg ▸ hx.valid, fun s e hb =>
    hlog ▸ List.mem_append_left _ (hx.stored s e (hreg ▸ hb))⟩
  later := Later.of_append hreg hlog
  logged := ⟨[q], hlog, fun q' hq' hnan => by
    rw [List.mem_singleton.1 hq'] at hnan ⊢
    rw [hreg]
    exact hq hnan⟩
  offered p h := by rw [hp] at h; cases h
  sound := hs
  held b hb := .inr ⟨hreg ▸ hb, hh b⟩

/-- An access that makes the offer it had in flight, of the logged evaluation `(s, v)`, and
logs nothing. -/
theorem offer (hx : Stored x.log x.register) {s : S} {v : Float} (hv : v.isNaN = false)
    (hmem : (s, v) ∈ x.log) (hreg : y.register = (x.register.offer v s).2) (hlog : y.log = x.log)
    (hp : ∀ p, st.pending = some p → p = v) (hs : st'.Sound y.log y.register)
    (hh : ∀ b, y.register.best = some b →
      st'.Holds b ∨ x.register.best = some b ∧ (st.Holds b → st'.Holds b)) :
    Accesses x y st st' where
  stored := by
    refine ⟨hreg ▸ hx.valid.offer v s, fun s' e' hb => hlog ▸ ?_⟩
    rw [hreg] at hb
    rcases Register.offer_best hx.valid v s with hsame | hnew
    · exact hx.stored s' e' (hsame ▸ hb)
    · rw [hnew] at hb
      cases hb
      exact hmem
  later := Later.of_offer hx.valid hreg (hlog.trans (List.append_nil _).symm)
  logged := ⟨[], hlog.trans (List.append_nil _).symm, by simp⟩
  offered p h := by
    rw [hp p h, hreg]
    exact Register.offer_covers hx.valid s hv
  sound := hs
  held := hh

/-- A failing access: the thread fails, and the abort flag is raised. -/
theorem fail {e : RunError} (hy : Stored y.log y.register) (hlater : Later x y)
    (hlogged : ∃ extra, y.log = x.log ++ extra ∧ ∀ q ∈ extra, q.2.isNaN = false →
      y.register.Covers q.2)
    (hoff : ∀ p, st.pending = some p → y.register.Covers p) :
    Accesses x { y with abort := true } st (.failed e) where
  stored := hy
  later := ⟨hlater.log, hlater.covers⟩
  logged := by
    obtain ⟨extra, hlog, hcov⟩ := hlogged
    exact ⟨extra, hlog, fun q hq hnan => .inl (hcov q hq hnan)⟩
  offered := hoff
  sound := trivial
  held _ _ := .inl trivial

/-- A failing access that leaves the register alone and logs NaN energies only, from a stage
with no offer in flight. -/
theorem quiet {g g' : Stream} {e : RunError} (hx : Stored x.log x.register)
    (hq : Quiet (x, g) (y, g')) (hp : st.pending = none) :
    Accesses x { y with abort := true } st (.failed e) := by
  obtain ⟨hreg, extra, hlog, hnan⟩ := hq
  have hreg : y.register = x.register := hreg
  have hlog : y.log = x.log ++ extra := hlog
  refine fail ⟨hreg ▸ hx.valid, fun s v hb => hlog ▸ List.mem_append_left _
    (hx.stored s v (hreg ▸ hb))⟩ (Later.of_append hreg hlog) ⟨extra, hlog, fun q hq hno => ?_⟩
    fun p h => by rw [hp] at h; cases h
  rw [hnan q hq] at hno
  cases hno

end Accesses

/-- How a register offer `Held` by a walk reads on stages: a stage whose best is `b`, followed by
one whose best is `b'`. -/
theorem Held.stages {reg reg' : Register S} {b b' : S × Float} (h : Held reg reg' b b')
    {st st' : Stage S} (hst : ∀ c, st.Holds c → c = b) (hst' : st'.Holds b') :
    ∀ c, reg'.best = some c → st'.Holds c ∨ reg.best = some c ∧ (st.Holds c → st'.Holds c) := by
  intro c hc
  rcases h with htake | ⟨rfl, rfl | hnot⟩
  · rw [htake] at hc
    cases hc
    exact .inl hst'
  · exact .inr ⟨hc, fun hold => hst c hold ▸ hst'⟩
  · refine .inr ⟨hc, fun hold => ?_⟩
    rw [hst c hold] at hc
    exact absurd hc hnot

namespace Stage

variable {cx : Setup σ ω S} {i : Nat} {st st' : Stage S} {e : RunError}
  {x y : Shared (σ × List (S × Float)) ω S × Stream}

theorem holds_same {w w' : Walk S} (hw : w.SameSolutions w') {b : S × Float}
    (h : (w.best, w.bestEnergy) = b) : (w'.best, w'.bestEnergy) = b := by
  rw [hw.2.2.1, hw.2.2.2]
  exact h

/-- A walk at the evaluation it has just offered, as its current solution and as its best. -/
theorem Walk.Sound.offered {log : List (S × Float)} {reg : Register S} (hr : reg.Valid)
    {w : Walk S} {s : S} {v : Float} (hmem : (s, v) ∈ log) (hv : v.isNaN = false)
    (hcur : (w.current, w.currentEnergy) = (s, v)) (hbest : (w.best, w.bestEnergy) = (s, v)) :
    Walk.Sound log (reg.offer v s).2 w := by
  have hbE : w.bestEnergy = v := congrArg Prod.snd hbest
  have hcE : w.currentEnergy = v := congrArg Prod.snd hcur
  refine ⟨hcur ▸ hmem, hbest ▸ hmem, ?_, ?_⟩
  · rw [hbE]
    exact Register.offer_covers hr s hv
  · rw [hbE, hcE]
    exact Float.le_refl_of_isNaN_eq_false hv

/-- Every access keeps what `Accesses` says, from a stored register and a sound stage. -/
theorem access_ok_accesses (hx : Stored x.1.log x.1.register) (hs : st.Sound x.1.log x.1.register)
    (h : st.access cx.recording i x = .ok st' y) : Accesses x.1 y.1 st st' := by
  cases st with
  | start =>
      obtain ⟨⟨hreg, hlog⟩, s, rfl⟩ := access_start_ok h
      exact .untracked hx hreg hlog rfl trivial fun _ h => h
  | evaluateStart s =>
      obtain ⟨v, rfl, hv, hreg, hlog⟩ := access_evaluateStart_ok h
      have hmem : (s, v) ∈ y.1.log := hlog ▸ List.mem_append_right _ (List.mem_singleton_self _)
      exact .logs hx hreg hlog (fun _ => .inr ⟨v, rfl, Float.le_refl_of_isNaN_eq_false hv⟩) rfl
        ⟨hmem, hv⟩ fun _ h => h.elim
  | offerStart s v =>
      obtain ⟨hmem, hv⟩ := hs
      obtain ⟨hlog, hreg, w, rfl, hcur, hcurE, hbest, hbestE⟩ := access_offerStart_ok h
      rw [Register.guard_offer hx.valid.bestEnergy_isNaN] at hreg
      have hmem' : (s, v) ∈ y.1.log := hlog ▸ hmem
      refine .offer hx hv hmem hreg hlog (fun p hp => (Option.some.inj hp).symm) ?_ ?_
      · rw [hreg]
        exact Walk.Sound.offered hx.valid hmem' hv (by rw [hcur, hcurE]) (by rw [hbest, hbestE])
      · -- the register took the starting solution, or is as it was
        intro b hb
        rcases Register.offer_snd hx.valid v s with hsame | hstore
        · exact .inr ⟨hsame ▸ hreg ▸ hb, fun hold => hold.elim⟩
        · rw [hreg, hstore, Register.store_best] at hb
          cases hb
          exact .inl (show (w.best, w.bestEnergy) = (s, v) by rw [hbest, hbestE])
  | walking t w =>
      obtain ⟨rfl, ⟨rfl, -⟩ | ⟨tm, rfl⟩⟩ := access_walking_ok h
      · exact .untracked hx rfl rfl rfl hs fun _ h => h
      · exact .untracked hx rfl rfl rfl (finish_sound hs _ _ _) fun _ h => h
  | checkCancel t w =>
      obtain ⟨rfl, rfl | ⟨tm, rfl⟩⟩ := access_checkCancel_ok h
      · exact .untracked hx rfl rfl rfl hs fun _ h => h
      · exact .untracked hx rfl rfl rfl (finish_sound hs _ _ _) fun _ h => h
  | propose t w =>
      obtain ⟨⟨hreg, hlog⟩, w', cand, rfl, hw⟩ := access_propose_ok h
      exact .untracked hx hreg hlog rfl (Walk.Sound.same hs hw) fun _ => holds_same hw
  | evaluate t w cand =>
      have hsw : Walk.Sound x.1.log x.1.register w := hs
      obtain ⟨hreg, c, w', rfl, hc, hlog, hbest, hbestE, hcur⟩ := access_evaluate_ok h
      have hcand : (cand, c) ∈ y.1.log := hlog ▸ List.mem_append_right _ (List.mem_singleton_self _)
      have hcurNaN : w.currentEnergy.isNaN = false := Float.isNaN_right_of_le hsw.best_le
      refine .logs hx hreg hlog ?_ rfl ?_ fun b hb =>
        show (w'.best, w'.bestEnergy) = b by rw [hbest, hbestE]; exact hb
      · -- the neighbour is covered, or it is the new current solution below the best, in flight
        intro _
        rcases hcur with ⟨-, hcE⟩ | ⟨-, -, hnot⟩
        · by_cases hlt : c < w.bestEnergy
          · refine .inr ⟨c, ?_, Float.le_refl_of_isNaN_eq_false hc⟩
            simp [pending, hcE, hbestE, hlt]
          · exact .inl (hsw.covers.trans (Float.le_of_not_lt hc hsw.covers.isNaN hlt))
        · exact .inl ((hsw.covers.trans hsw.best_le).trans
            (Float.le_of_lt (Float.lt_of_not_le hc hcurNaN hnot)))
      · have hlater : Later x.1 y.1 := Later.of_append hreg hlog
        refine ⟨?_, hbest ▸ hbestE ▸ hlater.log.subset hsw.best_mem,
          hbestE ▸ hreg ▸ hsw.covers, ?_⟩
        · rcases hcur with ⟨hc', hcE⟩ | ⟨hc', hcE, -⟩
          · rw [hc', hcE]
            exact hcand
          · rw [hc', hcE]
            exact hlater.log.subset hsw.current_mem
        · rcases hcur with ⟨-, hcE⟩ | ⟨-, hcE, -⟩
          · exact hcE ▸ hc
          · exact hcE ▸ hcurNaN
  | keep t w =>
      obtain ⟨hcm, hbm, hcov, hcn⟩ := hs
      obtain ⟨w', rfl, hkeep⟩ := access_keep_ok h
      obtain ⟨hlog, hcur, hcurE, -, hk⟩ := Turn.keepBest_ok hkeep
      rcases hk with ⟨hlt, hb, hbE, hreg⟩ | ⟨hnlt, hb, hbE, hreg⟩
      · -- a new local best, offered
        rw [Register.guard_offer hx.valid.bestEnergy_isNaN] at hreg
        have hp : ∀ p, (keep t w).pending = some p → p = w.currentEnergy := fun p hp => by
          simp only [pending, hlt, ↓reduceIte] at hp
          exact (Option.some.inj hp).symm
        have hsound : Walk.Sound y.1.log y.1.register w' := by
          rw [hreg, hlog]
          exact Walk.Sound.offered hx.valid hcm hcn (by rw [hcur, hcurE]) (by rw [hb, hbE])
        have hheld : Held x.1.register (x.1.register.offer w.currentEnergy w.current).2
            (w.best, w.bestEnergy) (w.current, w.currentEnergy) :=
          Held.offer hx.valid hcn hlt
        refine .offer hx hcn hcm hreg hlog hp hsound ?_
        rw [hreg]
        exact Held.stages hheld (fun c hc => hc.symm)
          (show (w'.best, w'.bestEnergy) = (w.current, w.currentEnergy) by rw [hb, hbE])
      · -- the best stays, at or below the current solution
        have hp : (keep t w).pending = none := by simp [pending, hnlt]
        have hle : w.bestEnergy ≤ w.currentEnergy := Float.le_of_not_lt hcn hcov.isNaN hnlt
        have hsound : Walk.Sound x.1.log x.1.register w' := by
          refine ⟨?_, ?_, ?_, ?_⟩
          · rw [hcur, hcurE]
            exact hcm
          · rw [hb, hbE]
            exact hbm
          · rw [hbE]
            exact hcov
          · rw [hbE, hcurE]
            exact hle
        exact .untracked hx hreg hlog hp hsound fun c hc =>
          show (w'.best, w'.bestEnergy) = c by rw [hb, hbE]; exact hc
  | report t w =>
      obtain ⟨⟨hreg, hlog⟩, rfl⟩ := access_report_ok h
      exact .untracked hx hreg hlog rfl hs fun _ h => h
  | askStop t w =>
      obtain ⟨⟨hreg, hlog⟩, stop, rfl⟩ := access_askStop_ok h
      have hsw : Walk.Sound x.1.log x.1.register w := hs
      rcases afterStop_cases cx.config i t w stop with ⟨tm, hend⟩ | ⟨w', hw, -, hnext⟩
      · rw [hend]
        exact .untracked hx hreg hlog rfl (finish_sound hsw _ _ _) fun _ h => h
      · have hsw' : Walk.Sound x.1.log x.1.register w' := Walk.Sound.same hsw hw
        rcases hnext with hnext | hnext <;> rw [hnext]
        · exact .untracked hx hreg hlog rfl hsw' fun _ => holds_same hw
        · exact .untracked hx hreg hlog rfl hsw' fun _ => holds_same hw
  | refresh t w =>
      obtain ⟨⟨hreg, hlog⟩, fresh, rfl⟩ := access_refresh_ok h
      exact .untracked hx hreg hlog rfl hs fun _ h => h
  | evaluateFresh t w fresh =>
      have hsw : Walk.Sound x.1.log x.1.register w := hs
      obtain ⟨f, rfl, hf, hreg, hlog⟩ := access_evaluateFresh_ok h
      have hmem : (fresh, f) ∈ y.1.log := hlog ▸ List.mem_append_right _ (List.mem_singleton_self _)
      exact .logs hx hreg hlog (fun _ => .inr ⟨f, rfl, Float.le_refl_of_isNaN_eq_false hf⟩) rfl
        ⟨hreg ▸ hsw.later (Later.of_append hreg hlog), hmem, hf⟩ fun _ h => h
  | offerFresh t w fresh f =>
      obtain ⟨hsw, hmem, hf⟩ := hs
      obtain ⟨hlog, hreg, w', rfl, hadopt⟩ := access_offerFresh_ok h
      have hmem' : (fresh, f) ∈ y.1.log := hlog ▸ hmem
      have hlater : Later x.1 y.1 := Later.of_offer hx.valid hreg (hlog.trans (List.append_nil _).symm)
      rcases hadopt with ⟨htake, hcur, hcurE, hbest, hbestE⟩ | ⟨hrefuse, hw⟩
      · -- the register took the fresh solution, and the walk adopts it
        obtain ⟨-, -, hstore⟩ := Register.offer_taken hx.valid htake
        refine .offer hx hf hmem hreg hlog (fun p hp => (Option.some.inj hp).symm)
          (hreg ▸ Walk.Sound.offered hx.valid hmem' hf (by rw [hcur, hcurE]) (by rw [hbest, hbestE]))
          fun b hb => ?_
        rw [hreg, hstore, Register.store_best] at hb
        cases hb
        exact .inl (show (w'.best, w'.bestEnergy) = (fresh, f) by rw [hbest, hbestE])
      · -- refused: the register and the walk are as they were
        have hreg' : y.1.register = x.1.register := hreg.trans (Register.offer_refused hx.valid hrefuse)
        refine .offer hx hf hmem hreg hlog (fun p hp => (Option.some.inj hp).symm)
          (Walk.Sound.same (hsw.later hlater) hw) fun b hb => ?_
        exact .inr ⟨hreg' ▸ hb, holds_same hw⟩
  | finished best st =>
      simp only [access] at h
      cases h
      exact .refl hx hs rfl
  | failed e =>
      simp only [access] at h
      cases h
      exact .refl hx hs rfl

/-- A failing access fails quietly, or, for the start, after its offer. -/
theorem access_error_accesses (hx : Stored x.1.log x.1.register)
    (hs : st.Sound x.1.log x.1.register) (h : st.access cx.recording i x = .error e y) :
    Accesses x.1 { y.1 with abort := true } st (.failed e) := by
  cases st with
  | start => exact .quiet hx (access_start_error h).quiet rfl
  | evaluateStart s => exact .quiet hx (access_evaluateStart_error h) rfl
  | offerStart s v =>
      obtain ⟨hmem, hv⟩ := hs
      obtain ⟨hlog, hreg⟩ := access_offerStart_error h
      rw [Register.guard_offer hx.valid.bestEnergy_isNaN] at hreg
      have hoff : Accesses x.1 y.1 (offerStart s v) (.failed e) :=
        .offer hx hv hmem hreg hlog (fun p hp => (Option.some.inj hp).symm) trivial
          fun _ _ => .inl trivial
      exact .fail hoff.stored hoff.later ⟨[], hlog.trans (List.append_nil _).symm, by simp⟩
        hoff.offered
  | walking t w => exact (access_walking_error h).elim
  | checkCancel t w => exact (access_checkCancel_error h).elim
  | propose t w => exact .quiet hx (access_propose_error h).quiet rfl
  | evaluate t w cand => exact .quiet hx (access_evaluate_error h) rfl
  | keep t w => exact (access_keep_error h).elim
  | report t w => exact .quiet hx (access_report_error h).quiet rfl
  | askStop t w => exact .quiet hx (access_askStop_error h).quiet rfl
  | refresh t w => exact .quiet hx (access_refresh_error h).quiet rfl
  | evaluateFresh t w fresh => exact .quiet hx (access_evaluateFresh_error h) rfl
  | offerFresh t w fresh f => exact (access_offerFresh_error h).elim
  | finished best st =>
      simp only [access] at h
      cases h
  | failed e' =>
      simp only [access] at h
      cases h

end Stage

theorem Thread.step_accesses {cx : Setup σ ω S} {sh : Shared (σ × List (S × Float)) ω S}
    {th : Thread S} (hx : Stored sh.log sh.register) (hs : th.stage.Sound sh.log sh.register) :
    Accesses sh (th.step cx.recording sh).1 th.stage (th.step cx.recording sh).2.stage := by
  by_cases hd : th.stage.done = true
  · rw [Thread.step_of_done hd]
    exact .refl hx hs (Stage.pending_of_done hd)
  simp only [Thread.step, hd, Bool.false_eq_true, ↓reduceIte]
  rcases h : th.stage.access cx.recording th.index (sh, th.stream) with
    ⟨st', ⟨y, g'⟩⟩ | ⟨e, ⟨y, g'⟩⟩
  · exact Stage.access_ok_accesses (x := (sh, th.stream)) hx hs h
  · exact Stage.access_error_accesses (x := (sh, th.stream)) hx hs h

/-! ## The pool -/

namespace Interleaved

/-- What a logging run keeps at every access, over the whole pool: the register is one that
offers reach and holds a logged evaluation, which some thread holds; every logged energy that is
no NaN is covered by the register or lies at or above an offer some thread has in flight; and
every thread's stage is sound. -/
structure RunSound (st : Shared (σ × List (S × Float)) ω S × Array (Thread S)) : Prop where
  stored : Stored st.1.log st.1.register
  covers : ∀ q ∈ st.1.log, q.2.isNaN = false → st.1.register.Covers q.2 ∨
    ∃ j, ∃ h : j < st.2.size, ∃ p, st.2[j].stage.pending = some p ∧ p ≤ q.2
  sound : ∀ j (h : j < st.2.size), st.2[j].stage.Sound st.1.log st.1.register
  held : ∀ b, st.1.register.best = some b → ∃ j, ∃ h : j < st.2.size, st.2[j].stage.Holds b

variable {cx : Setup σ ω S}

/-- One access of thread `i`: it changes, the others are framed. An energy that waited on the
offer of thread `i` is covered once the offer is made. -/
theorem RunSound.stepAt {st : Shared (σ × List (S × Float)) ω S × Array (Thread S)}
    (h : RunSound st) (i : Nat) : RunSound (Interleaved.stepAt cx.recording i st) := by
  unfold Interleaved.stepAt
  split
  · next hi =>
      have hstep : Accesses st.1 (st.2[i].step cx.recording st.1).1 st.2[i].stage
          (st.2[i].step cx.recording st.1).2.stage :=
        Thread.step_accesses h.stored (h.sound i hi)
      generalize st.2[i].step cx.recording st.1 = next at hstep
      have hi' : i < (st.2.set i next.2).size := by simpa using hi
      refine ⟨hstep.stored, fun q hq hnan => ?_, fun j hj => ?_, fun b hb => ?_⟩
      · obtain ⟨extra, hlog, hextra⟩ := hstep.logged
        rcases List.mem_append.1 (hlog ▸ hq) with hold | hnew
        · -- an energy logged before: its cover stays, or its offer is still in flight or made
          rcases h.covers q hold hnan with hcov | ⟨j, hj, p, hp, hle⟩
          · exact .inl (hstep.later.covers _ hcov)
          by_cases hji : i = j
          · subst hji
            exact .inl ((hstep.offered p hp).trans hle)
          · exact .inr ⟨j, by simpa using hj, p,
              by rw [Array.getElem_set_ne hi hj hji]; exact hp, hle⟩
        · -- an energy this access logged
          rcases hextra q hnew hnan with hcov | ⟨p, hp, hle⟩
          · exact .inl hcov
          · exact .inr ⟨i, hi', p, by rw [Array.getElem_set_self]; exact hp, hle⟩
      · -- thread `i` is sound after its access; the others stay sound at the later point
        by_cases hji : i = j
        · subst hji
          rw [Array.getElem_set_self]
          exact hstep.sound
        · rw [Array.getElem_set_ne hi (by simpa using hj) hji]
          exact (h.sound j _).later hstep.later
      · -- the register's best is held by thread `i`, or by whoever held it before
        rcases hstep.held b hb with hnew | ⟨hold, hkeep⟩
        · exact ⟨i, hi', by rw [Array.getElem_set_self]; exact hnew⟩
        obtain ⟨j, hj, hjb⟩ := h.held b hold
        by_cases hji : i = j
        · subst hji
          exact ⟨i, hi', by rw [Array.getElem_set_self]; exact hkeep hjb⟩
        · exact ⟨j, by simpa using hj, by rw [Array.getElem_set_ne hi hj hji]; exact hjb⟩
  · exact h

/-- Any schedule of accesses keeps the invariant. -/
theorem RunSound.run {sh : Shared (σ × List (S × Float)) ω S} {pool : Array (Thread S)}
    (h : RunSound (sh, pool)) (cx : Setup σ ω S) (schedule : List Nat) :
    RunSound (run cx.recording schedule sh pool) := by
  rw [run_eq_foldl]
  generalize (sh, pool) = st at h ⊢
  induction schedule generalizing st with
  | nil => exact h
  | cons i rest ih => exact ih _ (h.stepAt i)

@[simp] theorem size_pool (seed : UInt64) (threads : Nat) :
    (pool seed threads : Array (Thread S)).size = threads := by
  simp [pool]

@[simp] theorem getElem_pool {seed : UInt64} {threads j : Nat}
    (h : j < (pool seed threads : Array (Thread S)).size) :
    (pool seed threads : Array (Thread S))[j] = Thread.ofWorker (Worker.fresh seed j) := by
  simp [pool]

theorem RunSound.start (sh : Shared σ ω S) (seed : UInt64) (threads : Nat) :
    RunSound ({ sh.logged with register := Register.empty, abort := false },
      (pool seed threads : Array (Thread S))) where
  stored := ⟨Register.empty_valid, fun s e h => by cases h⟩
  covers q hq := by simp [Shared.log, Shared.logged] at hq
  sound j hj := by simp [Worker.fresh, Thread.ofWorker, Stage.ofPhase, Stage.Sound]
  held b hb := by cases hb

/-- With no offer in flight, the ledger of a step boundary holds. -/
theorem RunSound.ledger {st : Shared (σ × List (S × Float)) ω S × Array (Thread S)}
    (h : RunSound st) (hq : ∀ j (hj : j < st.2.size), st.2[j].stage.pending = none) :
    Ledger st.1.log st.1.register where
  valid := h.stored.valid
  stored := h.stored.stored
  covers q hmem hnan := by
    rcases h.covers q hmem hnan with hcov | ⟨j, hj, p, hp, -⟩
    · exact hcov
    · rw [hq j hj] at hp
      cases hp

end Interleaved

/-- At every point of every interleaving of the threads' accesses from an emptied register: the
register holds an evaluation the run logged, on a thread's best; every logged energy that is no
NaN is at or above the register's, unless some thread has an offer at or below it in flight;
every thread's stage is sound, its walk's best at or above the register's and at or below its
current energy but while a new local best waits to be kept; and whenever no offer is in flight,
the register holds the least energy the run computed, and is empty only if every energy
computed was NaN. -/
theorem Interleaved.register_between_accesses (cx : Setup σ ω S) (sh : Shared σ ω S)
    (seed : UInt64) (threads : Nat) (schedule : List Nat) :
    (let st := run cx.recording schedule { sh.logged with register := Register.empty, abort := false }
       (pool seed threads)
     (∀ s E, st.1.register.best = some (s, E) →
        (s, E) ∈ st.1.log ∧ ∃ j, ∃ h : j < st.2.size, st.2[j].stage.Holds (s, E)) ∧
     (∀ q ∈ st.1.log, q.2.isNaN = false → st.1.register.Covers q.2 ∨
        ∃ j, ∃ h : j < st.2.size, ∃ p, st.2[j].stage.pending = some p ∧ p ≤ q.2) ∧
     (∀ j (h : j < st.2.size), st.2[j].stage.Sound st.1.log st.1.register) ∧
     ((∀ j (h : j < st.2.size), st.2[j].stage.pending = none) →
        (st.1.register.best = none ↔ ∀ q ∈ st.1.log, q.2.isNaN = true) ∧
        ∀ s E, st.1.register.best = some (s, E) → E.isNaN = false ∧ ∀ q ∈ st.1.log, ¬ q.2 < E)) := by
  intro st
  have h : RunSound st := (RunSound.start sh seed threads).run cx schedule
  refine ⟨fun s E hb => ⟨h.stored.stored s E hb, h.held _ hb⟩, h.covers, h.sound, fun hq => ?_⟩
  have hl := h.ledger hq
  exact ⟨hl.best_eq_none_iff, fun s E hb => (hl.least hb).2⟩

end Annealing
