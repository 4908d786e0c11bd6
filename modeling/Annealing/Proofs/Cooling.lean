import Annealing.Proofs.Window

/-!
# The temperatures of a walk

A walk hands the Metropolis rule one temperature per iteration (`Walk.heat`): under the
adaptive strategy its controller's, under any other the schedule's at that iteration. The
adaptive controller records the move's outcome right after the Metropolis decision, which may
move its rate, and cools once at the end of the iteration, after the restart, at the rate the
record left; an iteration that ends the walk does not cool. So the temperatures are a running
product: the clamped starting temperature, then each one the clamped product of the one before
and the rate after that iteration's record (`Controller.rates`). The controller records one
outcome per iteration, so by the sliding window (`Controller.Tracks`) a rate moves only on an
iteration `t` with `t + 1` a multiple of the window (`Controller.rates_steady`).

What a life handed the Metropolis rule is read off its steps (`Worker.metropolisLog`): the
temperature of each iteration it ran, and whether the move was taken, which is whether the
step counted one more accepted move. The pieces of an iteration are read once each for what
they do to the walk's temperature and controller (`Turn.moveKeep_heat`, `Turn.restart_heat`);
the exits of an iteration (`Iterated`) then carry the invariant `Walk.Tempered` along a life,
whatever the shared states its steps begin from, up to the report, whose last temperature and
rate are those of the last iteration that ran.
-/

namespace Annealing

open Annealing.Random Schedule Adaptive

variable {σ ω S : Type}

/-! ## The rates of the adaptive controller -/

namespace Adaptive

/-- The controller calls of iterations whose moves had the outcomes `bs`: each iteration
records its outcome, then cools. -/
def Call.ofOutcomes (bs : List Bool) : List Call :=
  bs.flatMap fun b => [.record b, .cool]

theorem Call.outcomes_ofOutcomes (bs : List Bool) :
    (Call.ofOutcomes bs).filterMap Call.outcome? = bs := by
  induction bs with
  | nil => rfl
  | cons b bs ih =>
      show (Call.record b :: Call.cool :: Call.ofOutcomes bs).filterMap Call.outcome? = b :: bs
      simp only [List.filterMap_cons, Call.outcome?, ih]

namespace Controller

variable {α : Type} [Scalar α]

/-- The rates a controller has right after each record, for the outcomes `bs` of successive
iterations, cooling between records. -/
def rates : Controller α → List Bool → List α
  | _, [] => []
  | c, b :: bs => (c.record b).2.rate :: rates (c.record b).2.cool bs

variable {c : Controller α} {b : Bool} {bs : List Bool}

@[simp] theorem rates_nil : c.rates [] = [] := rfl

@[simp] theorem rates_cons :
    c.rates (b :: bs) = (c.record b).2.rate :: (c.record b).2.cool.rates bs :=
  rfl

@[simp] theorem length_rates : (c.rates bs).length = bs.length := by
  induction bs generalizing c with
  | nil => rfl
  | cons b bs ih => simp [ih]

@[simp] theorem replay_ofOutcomes_nil : c.replay (Call.ofOutcomes []) = c := rfl

@[simp] theorem replay_ofOutcomes_cons :
    c.replay (Call.ofOutcomes (b :: bs)) = (c.record b).2.cool.replay (Call.ofOutcomes bs) := by
  simp [Call.ofOutcomes, apply]

theorem replay_ofOutcomes_concat :
    c.replay (Call.ofOutcomes (bs ++ [b])) = ((c.replay (Call.ofOutcomes bs)).record b).2.cool := by
  simp [Call.ofOutcomes, replay, List.foldl_append, apply]

/-- The rate after the record of one more outcome comes last. -/
theorem rates_concat :
    c.rates (bs ++ [b]) = c.rates bs ++ [((c.replay (Call.ofOutcomes bs)).record b).2.rate] := by
  induction bs generalizing c with
  | nil => rfl
  | cons b' bs ih => simp [ih]

/-- Cooling leaves the rate alone, so a controller keeps the rate of its last record. -/
theorem replay_ofOutcomes_rate :
    (c.replay (Call.ofOutcomes bs)).rate = (c.rates bs).getLastD c.rate := by
  induction bs generalizing c with
  | nil => rfl
  | cons b bs ih => rw [replay_ofOutcomes_cons, ih, rates_cons, List.getLastD_cons, cool_rate]

/-- A record leaves the temperature alone, so each cooling multiplies it by the rate of the
record before it: the temperatures are a running product of the rates. -/
theorem replay_ofOutcomes_temperature :
    (c.replay (Call.ofOutcomes bs)).temperature =
      (c.rates bs).foldl (fun τ ρ => floorTemperature (τ * ρ)) c.temperature := by
  induction bs generalizing c with
  | nil => rfl
  | cons b bs ih =>
      have hcool : (c.record b).2.cool.temperature =
          floorTemperature (c.temperature * (c.record b).2.rate) := by
        rw [← record_temperature c b]
        rfl
      rw [replay_ofOutcomes_cons, ih, rates_cons, List.foldl_cons, hcool]

/-- Before the record of the outcome of iteration `t`, the rate is the one after the record
of iteration `t - 1`, or the starting rate. -/
theorem rate_before {t : Nat} (ht : t ≤ bs.length) :
    (c.rate :: c.rates bs)[t]? = some (c.replay (Call.ofOutcomes (bs.take t))).rate := by
  induction bs generalizing c t with
  | nil =>
      obtain rfl : t = 0 := Nat.le_zero.1 ht
      rfl
  | cons b bs ih =>
      cases t with
      | zero => rfl
      | succ t =>
          have h := ih (c := (c.record b).2.cool) (Nat.le_of_succ_le_succ ht)
          rw [cool_rate] at h
          simpa using h

/-- The rate right after the record of iteration `t`. -/
theorem getElem?_rates {t : Nat} (ht : t < bs.length) :
    (c.rates bs)[t]? = some ((c.replay (Call.ofOutcomes (bs.take t))).record bs[t]).2.rate := by
  induction bs generalizing c t with
  | nil => cases ht
  | cons b bs ih =>
      cases t with
      | zero => rfl
      | succ t => simpa using ih (c := (c.record b).2.cool) (Nat.lt_of_succ_lt_succ ht)

/-- A fresh controller's rate moves only on the record of an iteration `t` with `t + 1` a
multiple of the window in effect: every other record leaves the rate it found. -/
theorem rates_steady (settings : AdaptiveSettings α) (t0 a : α) {t : Nat} (ht : t < bs.length)
    (hw : (t + 1) % max settings.window 1 ≠ 0) :
    ((start settings t0 a).rates bs)[t]? =
      (clampRate a :: (start settings t0 a).rates bs)[t]? := by
  obtain ⟨htr, hset⟩ := (tracks_start settings t0 a).replay (Call.ofOutcomes (bs.take t))
  rw [List.nil_append, Call.outcomes_ofOutcomes] at htr
  have hwin : ((start settings t0 a).replay (Call.ofOutcomes (bs.take t))).window =
      max settings.window 1 := by
    unfold window
    rw [hset]
    rfl
  -- by the window's count, the record of iteration `t` does not look at the rate
  have hlook := (htr.looks_iff).2 (by rw [List.length_take, Nat.min_eq_left ht.le, hwin]; exact hw)
  have hrate := congrArg Prod.snd (record_decision
    ((start settings t0 a).replay (Call.ofOutcomes (bs.take t))) bs[t])
  rw [if_pos hlook] at hrate
  rw [getElem?_rates ht, show clampRate a = (start settings t0 a).rate from rfl,
    rate_before ht.le]
  exact congrArg some hrate

end Controller

end Adaptive

/-! ## What the pieces of an iteration do to the temperature -/

/-- The temperature the move of iteration `t` of walk `w` hands to the Metropolis rule: its
controller's, or without one the schedule's at `t`. -/
def Walk.heat (c : Config) (t : Nat) (w : Walk S) : Float :=
  match w.controller with
  | some ctl => ctl.temperature
  | none => Schedule.temperature c t

/-- A reserved controller is a fresh one. -/
theorem Adaptive.Controller.reserve_ok {α : Type} [Scalar α] {settings : AdaptiveSettings α}
    {temperature rate : α} {ctl : Controller α}
    (h : Controller.reserve settings temperature rate = .ok ctl) :
    ctl = Controller.start settings temperature rate := by
  unfold Controller.reserve at h
  split at h
  · exact (Except.ok.inj h).symm
  · cases h

namespace Turn

variable {cx : Setup σ ω S} {i t : Nat} {w w' : Walk S} {x y : Shared σ ω S × Stream}

/-- A move keeps the temperature it hands to the Metropolis rule, and its controller records
whether the move was taken, which is whether the move counted one more accepted move. -/
theorem move_heat (h : Turn.move cx i t w x = .ok w' y) :
    w'.temperature = w.heat cx.config t ∧
      w'.controller = w.controller.map fun ctl =>
        (ctl.record (decide (w'.accepted = w.accepted + 1))).2 := by
  unfold Turn.move at h
  dsimp only at h
  obtain ⟨cand, y₁, -, hrest₁⟩ := bind_eq_ok.1 h
  obtain ⟨c, y₂, -, hrest₂⟩ := bind_eq_ok.1 hrest₁
  obtain ⟨taken, y₃, -, hrest₃⟩ := bind_eq_ok.1 hrest₂
  obtain ⟨rfl, -⟩ := EStateM.Result.ok.inj hrest₃
  cases taken <;> cases hc : w.controller <;> simp [Walk.heat, hc]

/-- Keeping the best leaves the temperature, the controller and the accepted moves alone. -/
theorem keepBest_heat {c : Config}
    (h : (Turn.keepBest c t w : Turn σ ω S (Walk S)) x = .ok w' y) :
    w'.temperature = w.temperature ∧ w'.controller = w.controller ∧ w'.accepted = w.accepted := by
  unfold Turn.keepBest at h
  dsimp only at h
  split at h
  · obtain ⟨u, y₁, -, hrest₁⟩ := bind_eq_ok.1 h
    obtain ⟨w₁, y₂, hpure, hrest₂⟩ := bind_eq_ok.1 hrest₁
    obtain ⟨rfl, rfl⟩ := EStateM.Result.ok.inj hpure
    split at hrest₂ <;> obtain ⟨rfl, -⟩ := EStateM.Result.ok.inj hrest₂ <;>
      exact ⟨rfl, rfl, rfl⟩
  · obtain ⟨w₁, y₂, hpure, hrest₂⟩ := bind_eq_ok.1 h
    obtain ⟨rfl, rfl⟩ := EStateM.Result.ok.inj hpure
    split at hrest₂ <;> obtain ⟨rfl, -⟩ := EStateM.Result.ok.inj hrest₂ <;>
      exact ⟨rfl, rfl, rfl⟩

/-- An iteration's move and the keeping of its best: the walk keeps the temperature handed to
the Metropolis rule, and its controller has recorded whether the move was accepted. -/
theorem moveKeep_heat (h : Turn.moveKeep cx i t w x = .ok w' y) :
    w'.temperature = w.heat cx.config t ∧
      w'.controller = w.controller.map fun ctl =>
        (ctl.record (decide (w'.accepted = w.accepted + 1))).2 := by
  obtain ⟨w₁, y₁, hmove, hkeep⟩ := bind_eq_ok.1 h
  obtain ⟨htemp, hctl, hacc⟩ := keepBest_heat hkeep
  rw [htemp, hctl, hacc]
  exact move_heat hmove

/-- A restart, adopted or not, leaves the temperature and the controller alone. -/
theorem restart_heat (h : Turn.restart cx i t w x = .ok w' y) :
    w'.temperature = w.temperature ∧ w'.controller = w.controller := by
  unfold Turn.restart at h
  generalize w.restarter.tick = tk at h
  obtain ⟨due, r⟩ := tk
  dsimp only at h
  split at h
  · obtain ⟨rfl, -⟩ := EStateM.Result.ok.inj h
    exact ⟨rfl, rfl⟩
  · obtain ⟨fresh, y₁, -, hrest₁⟩ := bind_eq_ok.1 h
    obtain ⟨v, y₂, -, hrest₂⟩ := bind_eq_ok.1 hrest₁
    obtain ⟨sh, g⟩ := y₂
    obtain ⟨z, y₃, hget, hrest₃⟩ := bind_eq_ok.1 hrest₂
    obtain ⟨rfl, rfl⟩ := EStateM.Result.ok.inj hget
    dsimp only at hrest₃
    -- the offer, adopted or not, changes the walk's solutions only
    generalize r.offer fresh v sh.register = o at hrest₃
    obtain ⟨adopted, r', reg'⟩ := o
    obtain ⟨u, y₄, -, hrest₄⟩ := bind_eq_ok.1 hrest₃
    rcases adopted with _ | ⟨s, e⟩ <;> obtain ⟨rfl, -⟩ := EStateM.Result.ok.inj hrest₄ <;>
      exact ⟨rfl, rfl⟩

/-- An iteration that goes on to its restart ran its move and kept its best, reaching the walk
it goes on with. -/
theorem advance_continues {m : Walk S} (h : Turn.advance cx i t w x = .ok (.inr m) y) :
    ∃ y', Turn.moveKeep cx i t w x = .ok m y' := by
  obtain ⟨sh₀, g⟩ := x
  unfold Turn.advance at h
  dsimp only at h
  split at h
  · cases h
  obtain ⟨sh, y₀, hshared, hrest₀⟩ := bind_eq_ok.1 h
  obtain ⟨rfl, rfl⟩ := EStateM.Result.ok.inj hshared
  split at hrest₀
  · cases hrest₀
  split at hrest₀
  · cases hrest₀
  obtain ⟨w₁, y₁, hmove, hrest₁⟩ := bind_eq_ok.1 hrest₀
  obtain ⟨w₂, y₂, hkeep, hrest₂⟩ := bind_eq_ok.1 hrest₁
  obtain ⟨stop, y₃, -, hrest₃⟩ := bind_eq_ok.1 hrest₂
  -- only the branch past the stop hook and the last iteration goes on
  split at hrest₃
  · cases hrest₃
  split at hrest₃
  · cases hrest₃
  obtain ⟨hm, -⟩ := EStateM.Result.ok.inj hrest₃
  cases hm
  exact ⟨y₂, bind_eq_ok.2 ⟨w₁, y₁, hmove, hkeep⟩⟩

/-- A walk starts at the clamped starting temperature, with a fresh controller under the
adaptive strategy and none under any other. -/
theorem begin_heat (h : Turn.begin cx i x = .ok w y) :
    w.temperature = floorTemperature cx.config.initialTemperature ∧
      w.controller = if cx.config.strategy = .adaptive then
        some (Controller.start cx.config.adaptive cx.config.initialTemperature
          cx.config.coolingRate)
      else none := by
  unfold Turn.begin at h
  dsimp only at h
  obtain ⟨s, y₁, -, hrest₁⟩ := bind_eq_ok.1 h
  obtain ⟨e, y₂, -, hrest₂⟩ := bind_eq_ok.1 hrest₁
  obtain ⟨u, y₃, -, hrest₃⟩ := bind_eq_ok.1 hrest₂
  split at hrest₃
  · next hadaptive =>
      rw [if_pos hadaptive]
      generalize hres : Controller.reserve cx.config.adaptive cx.config.initialTemperature
        cx.config.coolingRate = reserved at hrest₃
      rcases reserved with message | ctl <;> dsimp only at hrest₃
      · obtain ⟨c, y₄, hthrow, -⟩ := bind_eq_ok.1 hrest₃
        cases hthrow
      · obtain ⟨c, y₄, hpure, hrest₄⟩ := bind_eq_ok.1 hrest₃
        obtain ⟨rfl, rfl⟩ := EStateM.Result.ok.inj hpure
        obtain ⟨rfl, -⟩ := EStateM.Result.ok.inj hrest₄
        exact ⟨rfl, by rw [Controller.reserve_ok hres]⟩
  · next hadaptive =>
      rw [if_neg hadaptive]
      obtain ⟨c, y₄, hpure, hrest₄⟩ := bind_eq_ok.1 hrest₃
      obtain ⟨rfl, rfl⟩ := EStateM.Result.ok.inj hpure
      obtain ⟨rfl, -⟩ := EStateM.Result.ok.inj hrest₄
      exact ⟨rfl, rfl⟩

end Turn

namespace Worker

variable {cx : Setup σ ω S} {sh : Shared σ ω S} {wk : Worker S}

/-- A start that leaves a walk begins it as `Turn.begin_heat` says. -/
theorem step_start_heat (hstart : wk.phase = .start) {t : Nat} {w : Walk S}
    (h : (Worker.step cx sh wk).2.phase = .walking t w) :
    w.temperature = floorTemperature cx.config.initialTemperature ∧
      w.controller = if cx.config.strategy = .adaptive then
        some (Controller.start cx.config.adaptive cx.config.initialTemperature
          cx.config.coolingRate)
      else none := by
  obtain ⟨i, g, phase⟩ := wk
  cases hstart
  simp only [Worker.step] at h
  rcases hb : Turn.begin cx i (sh, g) with ⟨w', y⟩ | ⟨e, y⟩ <;> simp only [hb] at h
  · cases h
    exact Turn.begin_heat hb
  · cases h

/-- An iteration that goes on leaves the walk its move and keep reached, restarted or not, with
its temperature, and its controller cooled once. -/
theorem step_walking_cools {t : Nat} {w : Walk S} (hphase : wk.phase = .walking t w)
    {t' : Nat} {w' : Walk S} (h : (Worker.step cx sh wk).2.phase = .walking t' w') :
    ∃ m y, Turn.moveKeep cx wk.index t w (sh, wk.stream) = .ok m y ∧
      w'.temperature = m.temperature ∧ w'.controller = m.controller.map (·.cool) := by
  obtain ⟨i, g, phase⟩ := wk
  cases hphase
  simp only [Worker.step, id] at h ⊢
  rcases hi : Turn.iterate cx i t w (sh, g) with ⟨p, y⟩ | ⟨e, y⟩ <;> simp only [hi] at h
  · subst h
    unfold Turn.iterate at hi
    obtain ⟨r, y₁, hadv, hrest⟩ := bind_eq_ok.1 hi
    rcases r with phase | m
    · -- an iteration that ends the walk leaves it finished
      obtain ⟨rfl, -⟩ := EStateM.Result.ok.inj hrest
      rcases Turn.advance_ends hadv with ⟨best, st, hr⟩ | ⟨_, hr, -⟩ <;> cases hr
    · obtain ⟨y', hmk⟩ := Turn.advance_continues hadv
      obtain ⟨w₁, y₂, hrestart, hcool⟩ := bind_eq_ok.1 hrest
      obtain ⟨hp, -⟩ := EStateM.Result.ok.inj hcool
      cases hp
      obtain ⟨htemp, hctl⟩ := Turn.restart_heat hrestart
      exact ⟨m, y', hmk, htemp, by rw [hctl]⟩
  · cases h

end Worker

/-! ## The Metropolis calls of a life -/

/-- The moves a phase has counted as accepted: its walk's, or its report's. -/
def Phase.acceptedMoves : Phase S → Nat
  | .walking _ w => w.accepted
  | .finished _ st => st.acceptedMoves
  | .start | .failed _ => 0

namespace Walk

variable {c : Config} {t : Nat} {w : Walk S}

theorem heat_some {ctl : Controller Float} (h : w.controller = some ctl) :
    w.heat c t = ctl.temperature := by
  simp [heat, h]

theorem heat_none (h : w.controller = none) : w.heat c t = Schedule.temperature c t := by
  simp [heat, h]

/-- A report's last rate is the controller's, or the configured one without a controller. -/
theorem stats_finalCoolingRate (i : Nat) (term : Termination) :
    (w.stats c i term).finalCoolingRate = (w.controller.map (·.rate)).getD c.coolingRate := by
  cases hc : w.controller <;> simp [stats, hc]

end Walk

namespace Worker

/-- What a step handed to the Metropolis rule, and what the rule answered: the temperature of
the iteration the step ran, and whether its move was taken, that is counted as one more
accepted move. A step that asked the problem for no neighbour ran no move and made no call. -/
def metropolis (cx : Setup σ ω S) (sh : Shared σ ω S) (wk : Worker S) : Option (Float × Bool) :=
  match wk.phase with
  | .walking t w =>
    if (Worker.problemCalls cx sh wk).any ProblemCall.isNeighbor then
      some (w.heat cx.config t,
        decide ((Worker.step cx sh wk).2.phase.acceptedMoves = w.accepted + 1))
    else none
  | .start | .finished .. | .failed _ => none

/-- The Metropolis calls of the steps `T`, in order. -/
def metropolisLog (cx : Setup σ ω S) (T : List (Shared σ ω S × Worker S)) :
    List (Float × Bool) :=
  T.filterMap fun p => metropolis cx p.1 p.2

variable {cx : Setup σ ω S} {T : List (Shared σ ω S × Worker S)} {sh : Shared σ ω S}
  {wk : Worker S}

theorem metropolis_idle (h : ∀ t w, wk.phase ≠ .walking t w) : metropolis cx sh wk = none := by
  obtain ⟨i, g, phase⟩ := wk
  cases phase with
  | walking t w => exact absurd rfl (h t w)
  | _ => rfl

theorem metropolis_walking {t : Nat} {w : Walk S} (h : wk.phase = .walking t w) :
    metropolis cx sh wk = if (Worker.problemCalls cx sh wk).any ProblemCall.isNeighbor then
      some (w.heat cx.config t,
        decide ((Worker.step cx sh wk).2.phase.acceptedMoves = w.accepted + 1))
    else none := by
  simp only [metropolis, h]

theorem metropolisLog_quiet (h : metropolis cx sh wk = none) :
    metropolisLog cx (T ++ [(sh, wk)]) = metropolisLog cx T := by
  simp [metropolisLog, h]

theorem metropolisLog_call {e : Float × Bool} (h : metropolis cx sh wk = some e) :
    metropolisLog cx (T ++ [(sh, wk)]) = metropolisLog cx T ++ [e] := by
  simp [metropolisLog, h]

end Worker

/-- One more rate adds to the running product the product of all the rates so far. -/
theorem dropLast_scanl_concat {α β : Type} (f : β → α → β) (a : β) (l : List α) (x : α) :
    ((l ++ [x]).scanl f a).dropLast = (l.scanl f a).dropLast ++ [l.foldl f a] := by
  have hne : l.scanl f a ≠ [] := List.scanl_ne_nil
  calc ((l ++ [x]).scanl f a).dropLast = (l.scanl f a ++ [f (l.foldl f a) x]).dropLast := by
        simp [List.scanl_append]
    _ = l.scanl f a := List.dropLast_concat
    _ = (l.scanl f a).dropLast ++ [(l.scanl f a).getLast hne] := (List.dropLast_append_getLast hne).symm
    _ = (l.scanl f a).dropLast ++ [l.foldl f a] := by rw [List.getLast_scanl]

/-! ## The invariant -/

/-- What the Metropolis calls `L` of a life say of the walk `w` it has before iteration `t`:
one call for each iteration so far, the walk's temperature that of the last call, or the
clamped starting temperature before the first. Under the adaptive strategy the controller has
recorded the calls' outcomes, cooling after each, and the calls' temperatures are the running
product of the rates it took on each record; under any other there is no controller, and the
temperatures are the schedule's. -/
structure Walk.Tempered (c : Config) (L : List (Float × Bool)) (t : Nat) (w : Walk S) : Prop where
  length : L.length = t
  iterations : w.iterations = t
  temperature : w.temperature = (L.map Prod.fst).getLastD (floorTemperature c.initialTemperature)
  adaptive : c.strategy = .adaptive →
    w.controller = some ((Controller.start c.adaptive c.initialTemperature c.coolingRate).replay
      (Call.ofOutcomes (L.map Prod.snd))) ∧
    L.map Prod.fst = (((Controller.start c.adaptive c.initialTemperature c.coolingRate).rates
      (L.map Prod.snd)).scanl (fun τ ρ => floorTemperature (τ * ρ))
      (floorTemperature c.initialTemperature)).dropLast
  scheduled : c.strategy ≠ .adaptive →
    w.controller = none ∧ L.map Prod.fst = (List.range t).map (Schedule.temperature c)

/-- What the Metropolis calls `L` of a life say of its report `st`: one call for each
iteration, the last temperature that of the last call, and the last rate the controller's after
the last record, or the configured one without a controller. -/
structure Stats.Tempered (c : Config) (L : List (Float × Bool)) (st : Stats) : Prop where
  length : L.length = st.iterations
  temperature : st.finalTemperature =
    (L.map Prod.fst).getLastD (floorTemperature c.initialTemperature)
  adaptive : c.strategy = .adaptive →
    L.map Prod.fst = (((Controller.start c.adaptive c.initialTemperature c.coolingRate).rates
      (L.map Prod.snd)).scanl (fun τ ρ => floorTemperature (τ * ρ))
      (floorTemperature c.initialTemperature)).dropLast ∧
    st.finalCoolingRate = ((Controller.start c.adaptive c.initialTemperature c.coolingRate).rates
      (L.map Prod.snd)).getLastD (clampRate c.coolingRate)
  scheduled : c.strategy ≠ .adaptive →
    L.map Prod.fst = (List.range st.iterations).map (Schedule.temperature c) ∧
    st.finalCoolingRate = c.coolingRate

/-- What the steps `T` of a life say of the temperatures of the worker `wk` they led to. -/
def Worker.Tempered (cx : Setup σ ω S) (T : List (Shared σ ω S × Worker S)) (wk : Worker S) :
    Prop :=
  match wk.phase with
  | .start => Worker.metropolisLog cx T = []
  | .walking t w => Walk.Tempered cx.config (Worker.metropolisLog cx T) t w
  | .finished _ st => Stats.Tempered cx.config (Worker.metropolisLog cx T) st
  | .failed _ => True

namespace Walk.Tempered

variable {c : Config} {L : List (Float × Bool)} {t : Nat} {w m w' : Walk S} {b : Bool}

/-- A walk begins at the clamped starting temperature, with a fresh controller or none. -/
theorem begin (htemp : w.temperature = floorTemperature c.initialTemperature)
    (hctl : w.controller = if c.strategy = .adaptive then
      some (Controller.start c.adaptive c.initialTemperature c.coolingRate) else none)
    (hit : w.iterations = 0) : Walk.Tempered c [] 0 w where
  length := rfl
  iterations := hit
  temperature := htemp
  adaptive ha := ⟨by rw [hctl, if_pos ha]; rfl, rfl⟩
  scheduled ha := ⟨by rw [hctl, if_neg ha], rfl⟩

/-- A stop before an iteration reports the walk's temperature and rate. -/
theorem stopped (h : Walk.Tempered c L t w) (i : Nat) (term : Termination) :
    Stats.Tempered c L (w.stats c i term) where
  length := h.length.trans h.iterations.symm
  temperature := h.temperature
  adaptive ha := by
    obtain ⟨hctl, htemps⟩ := h.adaptive ha
    refine ⟨htemps, ?_⟩
    rw [stats_finalCoolingRate, hctl, Option.map_some, Option.getD_some,
      Controller.replay_ofOutcomes_rate]
    rfl
  scheduled ha := by
    obtain ⟨hctl, htemps⟩ := h.scheduled ha
    refine ⟨?_, ?_⟩
    · rw [htemps, ← h.iterations]
      rfl
    · rw [stats_finalCoolingRate, hctl]
      rfl

/-- Under the adaptive strategy, the iteration's call at the controller's temperature extends
the running product by the rate of the record before it. -/
theorem temps_adaptive (h : Walk.Tempered c L t w) (ha : c.strategy = .adaptive) :
    (L ++ [(w.heat c t, b)]).map Prod.fst =
      (((Controller.start c.adaptive c.initialTemperature c.coolingRate).rates
        ((L ++ [(w.heat c t, b)]).map Prod.snd)).scanl (fun τ ρ => floorTemperature (τ * ρ))
        (floorTemperature c.initialTemperature)).dropLast := by
  obtain ⟨hctl, htemps⟩ := h.adaptive ha
  rw [List.map_append, List.map_append, List.map_singleton, List.map_singleton,
    Controller.rates_concat, dropLast_scanl_concat, ← htemps, heat_some hctl,
    Controller.replay_ofOutcomes_temperature]
  rfl

/-- Under any other strategy, the iteration's call is at the schedule's temperature. -/
theorem temps_scheduled (h : Walk.Tempered c L t w) (ha : c.strategy ≠ .adaptive) :
    (L ++ [(w.heat c t, b)]).map Prod.fst = (List.range (t + 1)).map (Schedule.temperature c) := by
  obtain ⟨hctl, htemps⟩ := h.scheduled ha
  rw [List.map_append, List.map_singleton, htemps, heat_none hctl, List.range_succ,
    List.map_append, List.map_singleton]

/-- An iteration that ends the walk reports its temperature and the rate its record left. -/
theorem ended (h : Walk.Tempered c L t w) (htemp : m.temperature = w.heat c t)
    (hctl : m.controller = w.controller.map fun ctl => (ctl.record b).2)
    (hit : m.iterations = t + 1) (i : Nat) (term : Termination) :
    Stats.Tempered c (L ++ [(w.heat c t, b)]) (m.stats c i term) where
  length := by rw [List.length_append, h.length, List.length_singleton]; exact hit.symm
  temperature := by
    rw [List.map_append, List.map_singleton, List.getLastD_concat]
    exact htemp
  adaptive ha := by
    refine ⟨h.temps_adaptive ha, ?_⟩
    obtain ⟨hctl₀, -⟩ := h.adaptive ha
    rw [stats_finalCoolingRate, hctl, hctl₀, List.map_append, List.map_singleton,
      Controller.rates_concat, List.getLastD_concat]
    rfl
  scheduled ha := by
    refine ⟨?_, ?_⟩
    · rw [h.temps_scheduled ha]
      show _ = List.map _ (List.range m.iterations)
      rw [hit]
    · rw [stats_finalCoolingRate, hctl, (h.scheduled ha).1]
      rfl

/-- An iteration that goes on leaves its walk at the iteration's temperature, with the
controller cooled once at the rate its record left. -/
theorem restarted (h : Walk.Tempered c L t w) (htemp : m.temperature = w.heat c t)
    (hctl : m.controller = w.controller.map fun ctl => (ctl.record b).2)
    (hit : w'.iterations = t + 1) (htemp' : w'.temperature = m.temperature)
    (hcool : w'.controller = m.controller.map (·.cool)) :
    Walk.Tempered c (L ++ [(w.heat c t, b)]) (t + 1) w' where
  length := by rw [List.length_append, h.length, List.length_singleton]
  iterations := hit
  temperature := by
    rw [List.map_append, List.map_singleton, List.getLastD_concat, htemp', htemp]
  adaptive ha := by
    refine ⟨?_, h.temps_adaptive ha⟩
    obtain ⟨hctl₀, -⟩ := h.adaptive ha
    rw [hcool, hctl, hctl₀, List.map_append, List.map_singleton,
      Controller.replay_ofOutcomes_concat]
    rfl
  scheduled ha := by
    refine ⟨?_, h.temps_scheduled ha⟩
    rw [hcool, hctl, (h.scheduled ha).1]
    rfl

end Walk.Tempered

namespace Worker

variable {cx : Setup σ ω S} {T : List (Shared σ ω S × Worker S)} {sh : Shared σ ω S}
  {wk : Worker S}

/-- Every step that does not fail keeps what the Metropolis calls say of the temperatures. -/
theorem Tempered.step (h : Worker.Tempered cx T wk)
    (hok : ∀ e, (Worker.step cx sh wk).2.phase ≠ .failed e) :
    Worker.Tempered cx (T ++ [(sh, wk)]) (Worker.step cx sh wk).2 := by
  rcases Worker.step_cases hok with ⟨hdone, hstep⟩ |
      ⟨hstart, s, v, w, -, -, -, hphase, hfresh⟩ | ⟨t, w, hphase, hit⟩
  · -- a done worker calls nothing and stays as it is
    have hquiet : metropolis cx sh wk = none := by
      apply metropolis_idle
      intro t w hw
      rw [Worker.done, hw] at hdone
      cases hdone
    unfold Worker.Tempered at h ⊢
    rw [hstep, metropolisLog_quiet hquiet]
    exact h
  · -- the start begins a walk at the clamped starting temperature
    have hquiet : metropolis cx sh wk = none := metropolis_idle fun t w hw => by
      rw [hstart] at hw
      cases hw
    unfold Worker.Tempered at h ⊢
    rw [hstart] at h
    rw [hphase, metropolisLog_quiet hquiet, h]
    obtain ⟨htemp, hctl⟩ := step_start_heat hstart hphase
    exact Walk.Tempered.begin htemp hctl hfresh.iterations
  · -- an iteration, by its exits
    unfold Worker.Tempered at h ⊢
    rw [hphase] at h
    have hmet : metropolis cx sh wk = _ := metropolis_walking hphase
    generalize hP : Worker.problemCalls cx sh wk = P at hit hmet
    generalize Worker.hookCalls cx sh wk = H at hit
    generalize hp : (Worker.step cx sh wk).2.phase = p at hit hmet ⊢
    cases hit with
    | spent _ =>
        rw [metropolisLog_quiet (by rw [hmet]; rfl)]
        exact h.stopped _ _
    | aborted _ _ =>
        rw [metropolisLog_quiet (by rw [hmet]; rfl)]
        exact h.stopped _ _
    | cancelled _ _ _ _ =>
        rw [metropolisLog_quiet (by rw [hmet]; rfl)]
        exact h.stopped _ _
    | ran _ _ _ hmove hm _ _ hend =>
        -- the step asked for a neighbour: it ran its move, at the walk's temperature
        simp only [List.any_cons, ProblemCall.isNeighbor, Bool.true_or, ↓reduceIte] at hmet
        obtain ⟨htemp, hctl⟩ := Turn.moveKeep_heat hmove
        cases hend with
        | stopped =>
            rw [metropolisLog_call hmet]
            exact h.ended htemp hctl hm.iterations _ _
        | last _ =>
            rw [metropolisLog_call hmet]
            exact h.ended htemp hctl hm.iterations _ _
        | restarted _ hres =>
            obtain ⟨m', y', hmk, htemp', hcool⟩ := step_walking_cools hphase hp
            rw [hmove] at hmk
            obtain ⟨rfl, -⟩ := EStateM.Result.ok.inj hmk
            have hacc : Phase.acceptedMoves (.walking (t + 1) _) = _ := hres.accepted
            rw [hacc] at hmet
            rw [metropolisLog_call hmet]
            exact h.restarted htemp hctl (hres.iterations.trans hm.iterations) htemp' hcool

/-- At every point of a life that has not failed, its steps so far say what `Worker.Tempered`
says of the worker. -/
theorem tempered_along_life (cx : Setup σ ω S) (i : Nat) (g : Random.Stream)
    (shs : List (Shared σ ω S)) (hok : ∀ e, (Worker.after cx shs ⟨i, g, .start⟩).phase ≠ .failed e) :
    Worker.Tempered cx (Worker.trace cx shs ⟨i, g, .start⟩) (Worker.after cx shs ⟨i, g, .start⟩) := by
  have h₀ : Worker.Tempered cx [] ⟨i, g, .start⟩ := rfl
  simpa using Worker.life_induction (Worker.Tempered cx) (fun _ _ _ h hok => h.step hok) shs h₀ hok

/-- What the whole life of a worker that finished says of its temperatures. -/
theorem tempered_of_life (cx : Setup σ ω S) (i : Nat) (g : Random.Stream)
    (shs : List (Shared σ ω S)) {best : S} {st : Stats}
    (hfin : (Worker.after cx shs ⟨i, g, .start⟩).phase = .finished best st) :
    Stats.Tempered cx.config (Worker.metropolisLog cx (Worker.trace cx shs ⟨i, g, .start⟩)) st := by
  have h := tempered_along_life cx i g shs fun e he => by
    rw [hfin] at he
    cases he
  unfold Worker.Tempered at h
  rw [hfin] at h
  exact h

/-- The temperatures of a walk. Each iteration a worker runs hands the Metropolis rule one
temperature and learns whether its move was taken. Under the adaptive strategy the first
temperature is the clamped starting one, and each next one the clamped product of the one
before and the rate the controller took on recording the outcome of the iteration before; that
rate moves only on the record of an iteration `t` with `t + 1` a multiple of the window in
effect. Under any other strategy the temperature of iteration `t` is the schedule's. A worker
that finished after `n` iterations, through any shared states, reports the temperature of its
last iteration, or the clamped starting one when it ran none, and, under the adaptive
strategy, the rate of the last record, or the clamped configured rate when there was none,
and the configured rate under any other. -/
theorem iteration_temperatures (cx : Setup σ ω S) (i : Nat) (g : Random.Stream)
    (shs : List (Shared σ ω S)) {best : S} {st : Stats}
    (hfin : (Worker.after cx shs ⟨i, g, .start⟩).phase = .finished best st) :
    let c := cx.config
    let calls := Worker.metropolisLog cx (Worker.trace cx shs ⟨i, g, .start⟩)
    let rates := (Controller.start c.adaptive c.initialTemperature c.coolingRate).rates
      (calls.map Prod.snd)
    calls.length = st.iterations ∧
      st.finalTemperature = (calls.map Prod.fst).getLastD (floorTemperature c.initialTemperature) ∧
      (c.strategy = .adaptive →
        calls.map Prod.fst = (rates.scanl (fun τ ρ => floorTemperature (τ * ρ))
          (floorTemperature c.initialTemperature)).dropLast ∧
        (∀ t, t < rates.length → (t + 1) % max c.adaptive.window 1 ≠ 0 →
          rates[t]? = (clampRate c.coolingRate :: rates)[t]?) ∧
        st.finalCoolingRate = rates.getLastD (clampRate c.coolingRate)) ∧
      (c.strategy ≠ .adaptive →
        calls.map Prod.fst = (List.range st.iterations).map (Schedule.temperature c) ∧
        st.finalCoolingRate = c.coolingRate) := by
  intro c calls rates
  have h := tempered_of_life cx i g shs hfin
  refine ⟨h.length, h.temperature, fun ha => ⟨(h.adaptive ha).1, fun t ht hw => ?_,
    (h.adaptive ha).2⟩, h.scheduled⟩
  rw [Controller.length_rates] at ht
  exact Controller.rates_steady c.adaptive c.initialTemperature c.coolingRate ht hw

/-- The temperatures of a walk that failed. Through any shared states, the life runs to the
step that failed with its error. Before that step the worker had either not started and handed
the Metropolis rule nothing, or stood before iteration `t` of a walk `w` after one call per
iteration, at the temperatures `iteration_temperatures` gives a finished walk
(`Walk.Tempered`): under the adaptive strategy the clamped running product of the rates its
controller took, and under any other the schedule's, with the walk's temperature that of the
last call. -/
theorem temperatures_before_failure (cx : Setup σ ω S) (i : Nat) (g : Random.Stream)
    (shs : List (Shared σ ω S)) {e : RunError}
    (hfail : (Worker.after cx shs ⟨i, g, .start⟩).phase = .failed e) :
    ∃ shs₁ sh shs₂, shs = shs₁ ++ sh :: shs₂ ∧
      (Worker.step cx sh (Worker.after cx shs₁ ⟨i, g, .start⟩)).2.phase = .failed e ∧
      (((Worker.after cx shs₁ ⟨i, g, .start⟩).phase = .start ∧
          Worker.metropolisLog cx (Worker.trace cx shs₁ ⟨i, g, .start⟩) = []) ∨
        ∃ t w, (Worker.after cx shs₁ ⟨i, g, .start⟩).phase = .walking t w ∧
          Walk.Tempered cx.config (Worker.metropolisLog cx (Worker.trace cx shs₁ ⟨i, g, .start⟩))
            t w) := by
  obtain ⟨shs₁, sh, shs₂, rfl, hok, hstep⟩ :=
    Worker.exists_failing_step (fun _ h => by cases h) hfail
  refine ⟨shs₁, sh, shs₂, rfl, hstep, ?_⟩
  have h := tempered_along_life cx i g shs₁ hok
  unfold Worker.Tempered at h
  -- the failing step started from a worker that had not started or was walking
  generalize hw : Worker.after cx shs₁ ⟨i, g, .start⟩ = wk at h hok hstep ⊢
  obtain ⟨j, g', phase⟩ := wk
  cases phase with
  | start => exact .inl ⟨rfl, h⟩
  | walking t w => exact .inr ⟨t, w, rfl, h⟩
  | finished best st =>
      rw [Worker.step_of_done rfl] at hstep
      cases hstep
  | failed e' => exact absurd rfl (hok e')

end Worker

/-- An adaptive walk of three iterations over a single solution of energy zero, so that every
move is taken, with a window of two moves. -/
def Setup.adaptivePair : Setup Unit Unit Unit where
  config :=
    { maxIterations := 3, strategy := .adaptive,
      adaptive := { AdaptiveSettings.standard with window := 2 } }
  problem :=
    { randomSolution := pure (), energy := fun _ => pure 0.0, neighbor := fun _ => pure () }
  observer := {}
  watchCancel := false
  status := ⟨true, 1⟩

/-- Its worker, stepping four times, runs three iterations and takes every move; the record of
the second, completing a window of accepted moves, speeds the cooling up, so the walk ends on a
rate below the one it began with. -/
theorem Setup.adaptivePair_speeds_up :
    ∃ best st, (Worker.after Setup.adaptivePair
        (List.replicate 4 { register := Register.empty, problem := (), observer := () })
        ⟨0, Random.Stream.ofSeed 0 0, .start⟩).phase = .finished best st ∧
      st.iterations = 3 ∧ st.finalCoolingRate < clampRate Setup.adaptivePair.config.coolingRate := by
  obtain ⟨best, st, hfin⟩ : ∃ best st, (Worker.after Setup.adaptivePair
      (List.replicate 4 { register := Register.empty, problem := (), observer := () })
      ⟨0, Random.Stream.ofSeed 0 0, .start⟩).phase = .finished best st := ⟨_, _, rfl⟩
  obtain ⟨hlen, -, hadaptive, -⟩ := Worker.iteration_temperatures Setup.adaptivePair 0
    (Random.Stream.ofSeed 0 0)
    (List.replicate 4 { register := Register.empty, problem := (), observer := () }) hfin
  obtain ⟨-, -, hrate⟩ := hadaptive rfl
  -- every move of the walk was taken
  have hcalls : (Worker.metropolisLog Setup.adaptivePair (Worker.trace Setup.adaptivePair
      (List.replicate 4 { register := Register.empty, problem := (), observer := () })
      ⟨0, Random.Stream.ofSeed 0 0, .start⟩)).map Prod.snd = [true, true, true] := rfl
  refine ⟨best, st, hfin, ?_, ?_⟩
  · rw [← hlen, ← List.length_map (f := Prod.snd), hcalls]
    rfl
  · rw [hrate, hcalls]
    decide +kernel

end Annealing
