import Mathlib
import Annealing.Engine
import Annealing.Proofs.Binary64.Monotone

/-!
# What validation accepts, and which fault it names

`Config.validate` accepts exactly the configurations of `Config.Valid`: a starting temperature
strictly between `0` and `+∞`, a rate in `(0, 1)` for the strategies other than the linear and the
adaptive one, at least one iteration and one worker, and, under the adaptive strategy, a window,
two thresholds in `[0, 1]` with the low one below the high one, and a step in `(0, 1)`. Every
bound is an IEEE comparison, false on NaN, so a NaN in any double that validation looks at
(`Config.checkedFields`) is refused.

The code writes most of these bounds negated (`!(t > 0 && t.isFinite)`, `low ≥ high`) and reads
`[0, 1]` as a range test. The negated forms refuse exactly what the plain bounds refuse only
because of what the earlier tests already ruled out: a positive double is finite exactly when it
is below `+∞`, and `low ≥ high` fails exactly when `low < high` holds once neither threshold is
NaN, which their lower bounds guarantee.

A refused configuration gets the error of the first failing check in the order of
`Config.checks`: temperature, rate, iterations, workers, then the window, the thresholds and the
step of the adaptive settings. An engine is created exactly when its configuration is accepted.
-/

namespace Annealing

open Binary64

/-! ## Checks made in order -/

/-- A check: whether it passes, and the error that reports its failure. -/
structure Check (ε : Type) where
  passes : Bool
  error : ε

namespace Check

variable {ε : Type}

/-- The checks made in order: the error of the first that fails, if one does. -/
def first : List (Check ε) → Except ε Unit
  | [] => .ok ()
  | k :: ks => if k.passes then first ks else .error k.error

theorem first_cons_of_passes {k : Check ε} (hk : k.passes = true) (ks : List (Check ε)) :
    first (k :: ks) = first ks := by
  simp [first, hk]

theorem first_cons_of_fails {k : Check ε} (hk : k.passes = false) (ks : List (Check ε)) :
    first (k :: ks) = .error k.error := by
  simp [first, hk]

theorem first_eq_ok_iff {ks : List (Check ε)} :
    first ks = .ok () ↔ ∀ k ∈ ks, k.passes = true := by
  induction ks with
  | nil => simp [first]
  | cons k ks ih => by_cases hk : k.passes <;> simp [first, hk, ih]

/-- Checks that pass are skipped. -/
theorem first_append_of_passes {pre : List (Check ε)} (hpre : ∀ j ∈ pre, j.passes = true)
    (ks : List (Check ε)) : first (pre ++ ks) = first ks := by
  induction pre with
  | nil => rfl
  | cons j pre ih =>
    rw [List.cons_append, first_cons_of_passes (hpre j List.mem_cons_self)]
    exact ih fun x hx => hpre x (List.mem_cons_of_mem _ hx)

/-- The error is that of a failing check, and every check before it passes. -/
theorem first_eq_error_iff {ks : List (Check ε)} {e : ε} :
    first ks = .error e ↔ ∃ pre k post, ks = pre ++ k :: post ∧
      (∀ j ∈ pre, j.passes = true) ∧ k.passes = false ∧ k.error = e := by
  constructor
  · intro h
    induction ks with
    | nil => cases h
    | cons k ks ih =>
      cases hk : k.passes
      · rw [first_cons_of_fails hk] at h
        exact ⟨[], k, ks, rfl, by simp, hk, Except.error.inj h⟩
      · rw [first_cons_of_passes hk] at h
        obtain ⟨pre, j, post, rfl, hpre, hj, he⟩ := ih h
        exact ⟨k :: pre, j, post, rfl, by simpa [hk] using hpre, hj, he⟩
  · rintro ⟨pre, k, post, rfl, hpre, hk, rfl⟩
    rw [first_append_of_passes hpre, first_cons_of_fails hk]

end Check

/-! ## The configurations a run accepts -/

/-- Adaptive settings the controller can run with, as IEEE comparisons. -/
@[mk_iff]
structure AdaptiveSettings.Valid (a : AdaptiveSettings Float) : Prop where
  window_ne_zero : a.window ≠ 0
  thresholds : 0.0 ≤ a.lowAcceptance ∧ a.lowAcceptance ≤ 1.0 ∧ 0.0 ≤ a.highAcceptance ∧
    a.highAcceptance ≤ 1.0 ∧ a.lowAcceptance < a.highAcceptance
  step : 0.0 < a.step ∧ a.step < 1.0

/-- A configuration a run can use, as IEEE comparisons. -/
@[mk_iff]
structure Config.Valid (c : Config) : Prop where
  temperature : 0.0 < c.initialTemperature ∧ c.initialTemperature < 1.0 / 0.0
  rate : c.strategy ≠ .linear → c.strategy ≠ .adaptive →
    0.0 < c.coolingRate ∧ c.coolingRate < 1.0
  iterations : c.maxIterations ≠ 0
  threads : c.threadCount ≠ 0
  adaptive : c.strategy = .adaptive → c.adaptive.Valid

/-- The checks on adaptive settings, in order, each with the fault it reports. -/
def AdaptiveSettings.checks (a : AdaptiveSettings Float) : List (Check ConfigError) :=
  [⟨decide (a.window ≠ 0), .invalidAdaptive .zeroWindow⟩,
    ⟨decide (0.0 ≤ a.lowAcceptance ∧ a.lowAcceptance ≤ 1.0 ∧ 0.0 ≤ a.highAcceptance ∧
        a.highAcceptance ≤ 1.0 ∧ a.lowAcceptance < a.highAcceptance),
      .invalidAdaptive (.thresholds a.lowAcceptance a.highAcceptance)⟩,
    ⟨decide (0.0 < a.step ∧ a.step < 1.0), .invalidAdaptive (.stepOutOfRange a.step)⟩]

/-- The checks on a configuration, in order, each with the error it reports; the adaptive
settings are checked under the adaptive strategy only. -/
def Config.checks (c : Config) : List (Check ConfigError) :=
  [⟨decide (0.0 < c.initialTemperature ∧ c.initialTemperature < 1.0 / 0.0),
      .nonPositiveTemperature c.initialTemperature⟩,
    ⟨decide (c.strategy ≠ .linear → c.strategy ≠ .adaptive →
        0.0 < c.coolingRate ∧ c.coolingRate < 1.0),
      .coolingRateOutOfRange c.strategy c.coolingRate⟩,
    ⟨decide (c.maxIterations ≠ 0), .zeroMaxIterations⟩,
    ⟨decide (c.threadCount ≠ 0), .zeroThreads⟩] ++
  if c.strategy = .adaptive then c.adaptive.checks else []

theorem AdaptiveSettings.checks_pass_iff (a : AdaptiveSettings Float) :
    (∀ k ∈ a.checks, k.passes = true) ↔ a.Valid := by
  simp only [AdaptiveSettings.checks, List.forall_mem_cons, List.not_mem_nil, IsEmpty.forall_iff,
    implies_true, and_true, decide_eq_true_eq, AdaptiveSettings.valid_iff]

theorem Config.checks_pass_iff (c : Config) : (∀ k ∈ c.checks, k.passes = true) ↔ c.Valid := by
  rw [Config.valid_iff]
  by_cases ha : c.strategy = .adaptive
  · simp only [Config.checks, ha, if_true, List.forall_mem_append, List.forall_mem_cons,
      List.not_mem_nil, IsEmpty.forall_iff, implies_true, and_true, decide_eq_true_eq,
      AdaptiveSettings.checks_pass_iff, forall_const, and_assoc]
  · simp only [Config.checks, ha, if_false, List.forall_mem_append, List.forall_mem_cons,
      List.not_mem_nil, IsEmpty.forall_iff, implies_true, and_true, decide_eq_true_eq, and_assoc]

instance AdaptiveSettings.decidableValid (a : AdaptiveSettings Float) : Decidable a.Valid :=
  decidable_of_iff _ a.checks_pass_iff

instance Config.decidableValid (c : Config) : Decidable c.Valid :=
  decidable_of_iff _ c.checks_pass_iff

example : ({} : Config).Valid := by decide

example : ¬({ initialTemperature := 0.0 / 0.0 } : Config).Valid := by decide

/-! ## The tests of the code are the plain bounds -/

theorem positive_finite_eq (t : Float) :
    (decide (t > 0.0) && t.isFinite) = decide (0.0 < t ∧ t < 1.0 / 0.0) := by
  rw [Bool.eq_iff_iff]
  simpa using and_congr_right isFinite_iff_lt_inf

theorem rate_refusal_eq (s : Strategy) (r : Float) :
    (s.requiresUnitRate && !(decide (r > 0.0) && decide (r < 1.0))) =
      !decide (s ≠ .linear → s ≠ .adaptive → 0.0 < r ∧ r < 1.0) := by
  cases s <;> simp [Strategy.requiresUnitRate]

theorem thresholds_refusal_eq (low high : Float) :
    (!inUnitInterval low || !inUnitInterval high || decide (low ≥ high)) =
      !decide (0.0 ≤ low ∧ low ≤ 1.0 ∧ 0.0 ≤ high ∧ high ≤ 1.0 ∧ low < high) := by
  rw [Bool.eq_iff_iff]
  simp only [inUnitInterval, Bool.not_and, ge_iff_le, Bool.or_eq_true, Bool.not_eq_eq_eq_not,
    Bool.not_true, decide_eq_false_iff_not, decide_eq_true_eq, Bool.decide_and]
  by_cases hn : 0.0 ≤ low ∧ 0.0 ≤ high
  · -- `high ≤ low` is the negation of `low < high` only between doubles that are not NaN
    have hlt : high ≤ low ↔ ¬ low < high :=
      ⟨fun h h' => Float.not_le_of_lt h' h,
        Float.le_of_not_lt (Float.isNaN_right_of_le hn.1) (Float.isNaN_right_of_le hn.2)⟩
    rw [hlt]
    simp only [or_assoc]
  · -- a NaN or negative threshold is refused by its range test, on both sides
    rcases not_and_or.1 hn with h | h <;> simp [h]

/-! ## Validation makes the checks in order -/

theorem AdaptiveSettings.validate_eq_first (a : AdaptiveSettings Float) :
    a.validate = Check.first a.checks := by
  rw [AdaptiveSettings.validate, thresholds_refusal_eq]
  simp only [AdaptiveSettings.checks, Check.first, ← Bool.decide_and, gt_iff_lt, Bool.not_eq_true',
    decide_eq_false_iff_not, decide_eq_true_eq, ite_not, ne_eq]

theorem Config.validate_eq_first (c : Config) : c.validate = Check.first c.checks := by
  rw [Config.validate, positive_finite_eq, rate_refusal_eq]
  by_cases ha : c.strategy = .adaptive
  · simp only [Config.checks, ha, if_true, List.cons_append, List.nil_append, Check.first,
      AdaptiveSettings.validate_eq_first, Bool.not_eq_true', decide_eq_false_iff_not,
      decide_eq_true_eq, ite_not, ne_eq]
  · simp only [Config.checks, ha, if_false, List.append_nil, Check.first, Bool.not_eq_true',
      decide_eq_false_iff_not, decide_eq_true_eq, ite_not, ne_eq]

theorem Config.validate_eq_ok_iff (c : Config) : c.validate = .ok () ↔ c.Valid := by
  rw [Config.validate_eq_first, Check.first_eq_ok_iff, Config.checks_pass_iff]

/-! ## NaN is refused wherever validation looks -/

/-- The doubles validation compares: the starting temperature, the rate where the strategy
needs one, and the thresholds and step under the adaptive strategy. -/
def Config.checkedFields (c : Config) : List Float :=
  c.initialTemperature ::
    ((if c.strategy ≠ .linear ∧ c.strategy ≠ .adaptive then [c.coolingRate] else []) ++
      if c.strategy = .adaptive then
        [c.adaptive.lowAcceptance, c.adaptive.highAcceptance, c.adaptive.step]
      else [])

theorem Config.Valid.isNaN_eq_false {c : Config} (h : c.Valid) {x : Float}
    (hx : x ∈ c.checkedFields) : x.isNaN = false := by
  simp only [Config.checkedFields, List.mem_cons, List.mem_append] at hx
  rcases hx with rfl | hx | hx
  · exact Float.isNaN_right_of_lt h.temperature.1
  · split_ifs at hx with hs
    · rw [List.mem_singleton] at hx
      subst hx
      exact Float.isNaN_right_of_lt (h.rate hs.1 hs.2).1
    · cases hx
  · split_ifs at hx with ha
    · have hv := h.adaptive ha
      simp only [List.mem_cons, List.not_mem_nil, or_false] at hx
      rcases hx with rfl | rfl | rfl
      · exact Float.isNaN_right_of_le hv.thresholds.1
      · exact Float.isNaN_right_of_le hv.thresholds.2.2.1
      · exact Float.isNaN_right_of_lt hv.step.1
    · cases hx

/-! ## Creating an engine -/

theorem Engine.create_ok_iff {σ ω S : Type} (p : Problem σ S) (c : Config) (o : Observer ω S) :
    (∃ e, Engine.create p c o = .ok e) ↔ c.validate = .ok () := by
  unfold Engine.create
  cases c.validate with
  | error err => simp [bind, Except.bind]
  | ok u => simp [bind, Except.bind, pure, Except.pure]

/-- Validation accepts exactly the valid configurations; otherwise it names the first failing
check, in the order temperature, rate, iterations, workers, window, thresholds, step. A NaN in
any double it compares is refused, and an engine is created exactly when validation accepts. -/
theorem Config.validation_laws (c : Config) :
    (c.validate = .ok () ↔ c.Valid) ∧
    (∀ e, c.validate = .error e ↔ ∃ pre k post, c.checks = pre ++ k :: post ∧
      (∀ j ∈ pre, j.passes = true) ∧ k.passes = false ∧ k.error = e) ∧
    (∀ x ∈ c.checkedFields, x.isNaN = true → c.validate ≠ .ok ()) ∧
    ∀ {σ ω S : Type} (p : Problem σ S) (o : Observer ω S),
      (∃ e, Engine.create p c o = .ok e) ↔ c.validate = .ok () := by
  refine ⟨c.validate_eq_ok_iff, fun e => ?_, fun x hx hnan hok => ?_,
    fun p o => Engine.create_ok_iff p c o⟩
  · rw [Config.validate_eq_first, Check.first_eq_error_iff]
  · have := ((c.validate_eq_ok_iff).1 hok).isNaN_eq_false hx
    rw [hnan] at this
    cases this

end Annealing
