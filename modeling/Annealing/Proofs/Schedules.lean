import Mathlib
import Annealing.Proofs.RunningProduct
import Annealing.Proofs.ControllerRange

/-!
# What every cooling schedule does

Read in exact arithmetic, the schedule of a validated configuration never heats: the
temperature of each iteration is at most that of the one before. Validation gives each strategy
what it needs. All seven need a starting temperature that is not negative; the power law and the
three inverse schedules need a rate in `(0, 1)`, which validation asks of exactly those. The
linear schedule divides by `max n 1`, positive whatever `n` is, and the adaptive one clamps its
own rate into `(0, 1)`, so neither needs its rate checked. Each raw schedule is antitone on
`[0, ∞)`, and the floor at `minTemperature` is a `max` with a constant, which keeps that.

In doubles the floor is what keeps every temperature at or above `minTemperature` and never NaN,
for any configuration, validated or not. It does not keep it finite: the floor leaves `+∞` alone,
and the logarithmic schedule divides the starting temperature by `ln 2 < 1` at the first
iteration, which overflows for a finite starting temperature near the largest double.
-/

namespace Annealing

section Validation

open Binary64

variable {c : Config}

theorem Config.initialTemperature_valid (h : c.validate = .ok ()) :
    0.0 < c.initialTemperature ∧ c.initialTemperature.isFinite = true := by
  unfold Config.validate at h
  split at h
  · cases h
  · next hT => simpa using hT

theorem Config.coolingRate_valid (h : c.validate = .ok ())
    (hs : c.strategy.requiresUnitRate = true) : 0.0 < c.coolingRate ∧ c.coolingRate < 1.0 := by
  unfold Config.validate at h
  split at h
  · cases h
  split at h
  · cases h
  · next ha => simpa [hs] using ha

theorem Config.toReal_initialTemperature_pos (h : c.validate = .ok ()) :
    0 < toReal c.initialTemperature := by
  obtain ⟨hpos, hfin⟩ := Config.initialTemperature_valid h
  simpa using (lt_iff_toReal isFinite_zero hfin).1 hpos

/-- Where the strategy needs one, a validated rate is a finite double, read as a real in
`(0, 1)`. -/
theorem Config.toReal_coolingRate_mem (h : c.validate = .ok ())
    (hs : c.strategy.requiresUnitRate = true) :
    0 < toReal c.coolingRate ∧ toReal c.coolingRate < 1 := by
  obtain ⟨h0, h1⟩ := Config.coolingRate_valid h hs
  have hfin := isFinite_of_le_of_le isFinite_zero isFinite_one (Float.le_of_lt h0)
    (Float.le_of_lt h1)
  constructor
  · simpa using (lt_iff_toReal isFinite_zero hfin).1 h0
  · simpa using (lt_iff_toReal hfin isFinite_one).1 h1

end Validation

namespace Schedule

/-! ## Exact arithmetic -/

section Exact

theorem zero_real : (0.0 : ℝ) = 0 := by norm_num

theorem one_real : (1.0 : ℝ) = 1 := by norm_num

theorem two_real : (2.0 : ℝ) = 2 := by norm_num

theorem atLeastZero_real (x : ℝ) : atLeastZero x = max x 0 := by
  unfold atLeastZero
  simp only [Scalar.isNaN, Bool.false_or, decide_eq_true_eq]
  rw [zero_real]
  split_ifs with h
  · exact (max_eq_right h.le).symm
  · exact (max_eq_left (not_lt.1 h)).symm

/-- A nonnegative numerator over a denominator that rises and stays positive falls. -/
theorem antitoneOn_div {t0 : ℝ} (ht0 : 0 ≤ t0) {d : ℝ → ℝ} (hd : MonotoneOn d (Set.Ici 0))
    (hpos : ∀ t, 0 ≤ t → 0 < d t) : AntitoneOn (fun t => t0 / d t) (Set.Ici 0) :=
  fun s hs _ ht hst => div_le_div_of_nonneg_left ht0 (hpos s hs) (hd hs ht hst)

/-- The shape of the three inverse schedules: one plus a nonnegative multiple of a rising,
nonnegative function of the iteration. -/
theorem antitoneOn_div_one_add {t0 a : ℝ} (ht0 : 0 ≤ t0) (ha : 0 ≤ a) {g : ℝ → ℝ}
    (hg : MonotoneOn g (Set.Ici 0)) (hg0 : ∀ t, 0 ≤ t → 0 ≤ g t) :
    AntitoneOn (fun t => t0 / (1 + a * g t)) (Set.Ici 0) := by
  refine antitoneOn_div ht0 (fun s hs t ht hst => ?_) (fun t ht => ?_)
  · have := mul_le_mul_of_nonneg_left (hg hs ht hst) ha
    show 1 + a * g s ≤ 1 + a * g t
    linarith
  · have := mul_nonneg ha (hg0 t ht)
    show 0 < 1 + a * g t
    linarith

variable {t0 a : ℝ}

/-- Each raw schedule falls on `[0, ∞)` from a starting temperature that is not negative, given
a rate in `(0, 1)` where the strategy asks for one. -/
theorem rawTemperature_antitoneOn (s : Strategy) (n : ℕ) (ht0 : 0 ≤ t0)
    (ha : s.requiresUnitRate = true → 0 < a ∧ a < 1) :
    AntitoneOn (rawTemperature s t0 a n) (Set.Ici 0) := by
  cases s with
  | linear =>
    have hN : (0 : ℝ) < ((max n 1 : ℕ) : ℝ) := Nat.cast_pos.2 (by omega)
    intro s _ t _ hst
    show t0 * atLeastZero (1.0 - t / ((max n 1 : ℕ) : ℝ)) ≤
      t0 * atLeastZero (1.0 - s / ((max n 1 : ℕ) : ℝ))
    rw [atLeastZero_real, atLeastZero_real]
    refine mul_le_mul_of_nonneg_left (max_le_max_right 0 ?_) ht0
    have := div_le_div_of_nonneg_right hst hN.le
    linarith
  | exponential =>
    obtain ⟨h0, h1⟩ := ha rfl
    intro s _ t _ hst
    exact mul_le_mul_of_nonneg_left (Real.rpow_le_rpow_of_exponent_ge h0 h1.le hst) ht0
  | adaptive =>
    -- the adaptive strategy clamps whatever rate it is given
    obtain ⟨h0, h1⟩ := clampRate_real_mem a
    intro s _ t _ hst
    exact mul_le_mul_of_nonneg_left (Real.rpow_le_rpow_of_exponent_ge h0 h1.le hst) ht0
  | logarithmic =>
    show AntitoneOn (fun t : ℝ => t0 / Real.log (t + 2.0)) _
    rw [two_real]
    refine antitoneOn_div ht0 (fun s hs t _ hst => ?_) (fun t ht => ?_)
    · exact Real.log_le_log (by linarith [Set.mem_Ici.1 hs]) (by linarith)
    · exact Real.log_pos (by linarith)
  | geometric =>
    show AntitoneOn (fun t : ℝ => t0 / (1.0 + a * t)) _
    rw [one_real]
    exact antitoneOn_div_one_add ht0 (ha rfl).1.le monotoneOn_id (fun _ ht => ht)
  | quadratic =>
    show AntitoneOn (fun t : ℝ => t0 / (1.0 + a * t * t)) _
    simp only [one_real, mul_assoc]
    refine antitoneOn_div_one_add ht0 (ha rfl).1.le (fun s hs t _ hst => ?_)
      (fun t ht => mul_nonneg ht ht)
    exact mul_self_le_mul_self hs hst
  | hyperbolic =>
    show AntitoneOn (fun t : ℝ => t0 / (1.0 + a * Real.sqrt t)) _
    rw [one_real]
    exact antitoneOn_div_one_add ht0 (ha rfl).1.le
      (fun _ _ _ _ hst => Real.sqrt_le_sqrt hst) (fun t _ => Real.sqrt_nonneg t)

/-- The floored schedule falls from one iteration to the next. -/
theorem temperatureAt_antitone (s : Strategy) (n : ℕ) (ht0 : 0 ≤ t0)
    (ha : s.requiresUnitRate = true → 0 < a ∧ a < 1) :
    Antitone (fun t : ℕ => temperatureAt s t0 a n t) := by
  intro i j hij
  show floorTemperature (rawTemperature s t0 a n (j : ℝ)) ≤
    floorTemperature (rawTemperature s t0 a n (i : ℝ))
  rw [floorTemperature_real, floorTemperature_real]
  exact max_le_max_right _ (rawTemperature_antitoneOn s n ht0 ha
    (Set.mem_Ici.2 (Nat.cast_nonneg i)) (Set.mem_Ici.2 (Nat.cast_nonneg j)) (Nat.cast_le.2 hij))

end Exact

open Binary64 in
/-- In exact arithmetic, with the configuration's starting temperature and rate read as reals,
the temperature of a validated configuration does not rise from one iteration to the next,
under each of the seven strategies; so no iteration is hotter than the first. -/
theorem validated_schedules_never_heat (c : Config) (hc : c.validate = .ok ()) :
    let temp := fun t : ℕ =>
      temperatureAt c.strategy (toReal c.initialTemperature) (toReal c.coolingRate)
        c.maxIterations t
    Antitone temp ∧ ∀ t, temp t ≤ temp 0 := by
  intro temp
  have hanti : Antitone temp := temperatureAt_antitone c.strategy c.maxIterations
    (Config.toReal_initialTemperature_pos hc).le (Config.toReal_coolingRate_mem hc)
  exact ⟨hanti, fun t => hanti (Nat.zero_le t)⟩

open Binary64 in
/-- The logarithmic schedule from the default starting temperature passes validation, and so
never heats. -/
theorem logarithmic_never_heats :
    ({ strategy := .logarithmic } : Config).validate = .ok () ∧
      Antitone (fun t : ℕ => temperatureAt Strategy.logarithmic (toReal 100.0) (toReal 0.995)
        10000 t) :=
  ⟨rfl, (validated_schedules_never_heat { strategy := .logarithmic } rfl).1⟩

/-! ## Doubles -/

section Doubles

open Binary64

/-- In doubles, under any configuration, validated or not, and at any iteration, the
temperature is at least `minTemperature` and never NaN. It is infinite exactly when the schedule
before the floor gives `+∞`. -/
theorem temperature_floored (c : Config) (t : ℕ) :
    minTemperature ≤ temperature c t ∧ (temperature c t).isNaN = false ∧
      ((temperature c t).isFinite = false ↔
        toEReal (rawTemperature c.strategy c.initialTemperature c.coolingRate c.maxIterations
          t.toFloat) = ⊤) :=
  floorTemperature_laws _

end Doubles

end Schedule

end Annealing
