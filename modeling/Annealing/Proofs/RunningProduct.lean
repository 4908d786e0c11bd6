import Mathlib
import Annealing.Proofs.Window

/-!
# Cooling in exact arithmetic

Read in exact arithmetic, the adaptive controller's temperature is a running product clamped at
every step: it starts at `max T₀ m` and each cooling step takes `T` to `max (T · r) m`, where `m`
is the minimum temperature and `r` the clamped rate. The adaptive schedule clamps once instead:
`max (T₀ · rᵗ) m`. The two agree after every step, also once the product has reached the floor
and when `T₀` starts below it, because a clamped rate is at most one: the floor cooled falls
below the floor, and clamping takes it back (`Schedule.floor_cool_floor`).

The exact reading is the instance `Scalar.real`: the real numbers with real powers, where
nothing is NaN. Records leave the temperature alone, so the agreement holds after any calls on
the controller as long as none of them moved the rate.
-/

namespace Annealing

/-- Exact arithmetic: the real numbers with real powers, the exponential, the natural logarithm
and the square root, where nothing is NaN. -/
noncomputable instance Scalar.real : Scalar ℝ where
  ofNat := Nat.cast
  pow := fun x y => x ^ y
  exp := Real.exp
  log := Real.log
  sqrt := Real.sqrt
  isNaN := fun _ => false
  decLt := Real.decidableLT
  decLe := Real.decidableLE

namespace Schedule

theorem floorTemperature_real (x : ℝ) : floorTemperature x = max x minTemperature := by
  unfold floorTemperature
  split
  · next h => exact (max_eq_left h).symm
  · next h => exact (max_eq_right (le_of_lt (not_le.1 h))).symm

theorem minTemperature_real_pos : (0 : ℝ) < minTemperature := by
  unfold minTemperature
  norm_num

/-- In exact arithmetic a clamped rate lies in `[minRate, maxRate]`, so strictly between zero
and one. -/
theorem clampRate_real_mem (a : ℝ) : 0 < clampRate a ∧ clampRate a < 1 := by
  have hmin : (0 : ℝ) < minRate := by unfold minRate; norm_num
  have hmax : (maxRate : ℝ) < 1 := by unfold maxRate; norm_num
  have hlt : (minRate : ℝ) < maxRate := by unfold minRate maxRate; norm_num
  unfold clampRate
  simp only [Scalar.isNaN, Bool.false_eq_true, ↓reduceIte]
  split
  · exact ⟨hmin, hlt.trans hmax⟩
  · next hlow =>
      split
      · exact ⟨hmin.trans hlt, hmax⟩
      · next hhigh =>
          exact ⟨lt_of_lt_of_le hmin (not_lt.1 hlow), lt_of_le_of_lt (not_lt.1 hhigh) hmax⟩

/-- Clamping before a cooling step changes nothing after the step is clamped, at any rate in
`[0, 1]`: the floor cooled is at most the floor. -/
theorem floor_cool_floor {r : ℝ} (h0 : 0 ≤ r) (h1 : r ≤ 1) (x : ℝ) :
    floorTemperature (floorTemperature x * r) = floorTemperature (x * r) := by
  have hm : minTemperature * r ≤ (minTemperature : ℝ) :=
    mul_le_of_le_one_right minTemperature_real_pos.le h1
  rw [floorTemperature_real, floorTemperature_real, floorTemperature_real,
    max_mul_of_nonneg _ _ h0, max_assoc, max_eq_right hm]

/-- The adaptive schedule in exact arithmetic: the starting temperature times the clamped rate
to the power of the iteration, clamped once. -/
theorem temperatureAt_adaptive_real (t0 a : ℝ) (n t : ℕ) :
    temperatureAt .adaptive t0 a n t = floorTemperature (t0 * clampRate a ^ t) := by
  show floorTemperature (t0 * clampRate a ^ (t : ℝ)) = _
  rw [Real.rpow_natCast]

end Schedule

namespace Adaptive.Controller

open Schedule

/-- Calls at a fixed rate `r` in `[0, 1]` from a temperature that is the clamped `x · rʲ` end at
the clamped `x · r^(j + c)`, `c` the cooling steps among them. -/
theorem replay_temperature {r : ℝ} (h0 : 0 ≤ r) (h1 : r ≤ 1) (x : ℝ) (calls : List Call) :
    ∀ (c : Controller ℝ) (j : ℕ), c.temperature = floorTemperature (x * r ^ j) →
      (∀ k ≤ calls.length, (c.replay (calls.take k)).rate = r) →
      (c.replay calls).temperature = floorTemperature (x * r ^ (j + calls.count .cool)) := by
  induction calls with
  | nil =>
      intro c j hc _
      simpa using hc
  | cons call rest ih =>
      intro c j hc hrate
      have hr : c.rate = r := by simpa using hrate 0 (Nat.zero_le _)
      -- the rest of the calls run at the same rate
      have hrest : ∀ k ≤ rest.length, ((c.apply call).replay (rest.take k)).rate = r := by
        intro k hk
        simpa using hrate (k + 1) (by simp; omega)
      cases call with
      | record b =>
          have h := ih (c.apply (.record b)) j (by simpa [apply] using hc) hrest
          simpa [List.count_cons] using h
      | cool =>
          -- one cooling step: the clamped product cooled and clamped again
          have hcool : (c.apply .cool).temperature = floorTemperature (x * r ^ (j + 1)) := by
            show floorTemperature (c.temperature * c.rate) = _
            rw [hc, hr, floor_cool_floor h0 h1, pow_succ, mul_assoc]
          have h := ih (c.apply .cool) (j + 1) hcool hrest
          rw [replay_cons, h, List.count_cons_self]
          congr 3
          omega

/-- In exact arithmetic the adaptive controller cools along the adaptive schedule: after any
calls during which its rate stayed the clamped starting rate, its temperature is the schedule's
temperature at the number of cooling steps among them, the starting temperature times the
clamped rate to that power, clamped once; also once the running product has reached the floor,
and when the starting temperature lies below it. -/
theorem cooling_matches_schedule (settings : AdaptiveSettings ℝ) (t0 a : ℝ) (n : ℕ)
    (calls : List Call)
    (hrate : ∀ k ≤ calls.length,
      ((start settings t0 a).replay (calls.take k)).rate = clampRate a) :
    ((start settings t0 a).replay calls).temperature =
      temperatureAt .adaptive t0 a n (calls.count .cool) := by
  obtain ⟨h0, h1⟩ := clampRate_real_mem a
  have hstart : (start settings t0 a).temperature = floorTemperature (t0 * clampRate a ^ 0) := by
    rw [pow_zero, mul_one]
    rfl
  rw [temperatureAt_adaptive_real,
    replay_temperature h0.le h1.le t0 calls (start settings t0 a) 0 hstart hrate, Nat.zero_add]

/-- Two cooling steps around a record that leaves the rate alone follow the schedule's second
temperature. -/
theorem cooling_matches_schedule_twice :
    (∀ k ≤ [Call.cool, .record true, .cool].length,
      ((start AdaptiveSettings.standard (100 : ℝ) 0.5).replay
        ([Call.cool, .record true, .cool].take k)).rate = clampRate 0.5) ∧
    ((start AdaptiveSettings.standard (100 : ℝ) 0.5).replay [.cool, .record true, .cool]).temperature =
      temperatureAt .adaptive 100 0.5 1000 2 := by
  have hrate : ∀ k ≤ [Call.cool, .record true, .cool].length,
      ((start AdaptiveSettings.standard (100 : ℝ) 0.5).replay
        ([Call.cool, .record true, .cool].take k)).rate = clampRate 0.5 := by
    intro k hk
    have hk3 : k ≤ 3 := hk
    interval_cases k <;> rfl
  exact ⟨hrate, cooling_matches_schedule AdaptiveSettings.standard 100 0.5 1000 _ hrate⟩

end Adaptive.Controller

end Annealing
