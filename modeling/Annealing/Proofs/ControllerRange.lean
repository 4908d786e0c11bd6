import Mathlib
import Annealing.Proofs.Window
import Annealing.Proofs.Binary64.Monotone

/-!
# The adaptive controller stays in range, in doubles

Whatever its settings (a window of zero, thresholds and a step that are NaN or infinite) and
whatever its starting temperature and rate, the adaptive controller keeps its rate in
`[minRate, maxRate]` and its temperature at or above `minTemperature`, so neither is ever NaN.
Both bounds come from the two clamps every change passes through: `clampRate` sends NaN to
`maxRate`, and `floorTemperature` sends NaN to `minTemperature`.

The rest is arithmetic of doubles (`Binary64.Monotone`). A cooling step multiplies the
temperature by a rate in `(0, 1]`, so it never raises it, keeps it finite if it was, and leaves
`+∞` at `+∞`. With a step that is not negative, slowing down adds something nonnegative to the
rate and speeding up subtracts something nonnegative; clamping keeps the order with the old rate,
which is already in range. A NaN on the way only matters when slowing down, where it clamps to
`maxRate`, which is no slower.
-/

namespace Annealing

open Binary64

namespace Schedule

theorem minRate_pos : (0.0 : Float) < minRate := by decide

theorem minRate_le_maxRate : (minRate : Float) ≤ maxRate := by decide

theorem maxRate_le_one : (maxRate : Float) ≤ 1.0 := by decide

theorem minTemperature_pos : (0.0 : Float) < minTemperature := by decide

theorem isFinite_minTemperature : (minTemperature : Float).isFinite = true := by decide

theorem isNaN_scalar (x : Float) : Scalar.isNaN x = x.isNaN := rfl

/-- A rate the adaptive strategy can cool with. -/
def RateInRange (r : Float) : Prop := minRate ≤ r ∧ r ≤ maxRate

namespace RateInRange

variable {r : Float} (hr : RateInRange r)
include hr

theorem isNaN : r.isNaN = false := Float.isNaN_right_of_le hr.1

theorem pos : 0.0 < r := Float.lt_of_lt_of_le minRate_pos hr.1

theorem le_one : r ≤ 1.0 := Float.le_trans hr.2 maxRate_le_one

theorem isFinite : r.isFinite = true :=
  isFinite_of_le_of_le (by decide) (by decide) (Float.le_of_lt hr.pos) hr.le_one

end RateInRange

theorem clampRate_mem (r : Float) : RateInRange (clampRate r) := by
  have hmax : (maxRate : Float) ≤ maxRate := by decide
  have hmin : (minRate : Float) ≤ minRate := by decide
  unfold clampRate
  split
  · exact ⟨minRate_le_maxRate, hmax⟩
  · next hnan =>
    have hr : r.isNaN = false := by simpa [isNaN_scalar] using hnan
    split
    · exact ⟨hmin, minRate_le_maxRate⟩
    · next hlow =>
      split
      · exact ⟨minRate_le_maxRate, hmax⟩
      · next hhigh =>
        exact ⟨Float.le_of_not_lt hr (by decide) hlow, Float.le_of_not_lt (by decide) hr hhigh⟩

/-- Clamping something NaN or no smaller than a rate in range gives no smaller a rate. -/
theorem le_clampRate {r x : Float} (hr : RateInRange r) (hx : x.isNaN = true ∨ r ≤ x) :
    r ≤ clampRate x := by
  unfold clampRate
  split
  · exact hr.2
  · next hnan =>
    have hrx : r ≤ x := hx.resolve_left (by simpa [isNaN_scalar] using hnan)
    split
    · next hlow =>
      exact absurd (Float.lt_of_le_of_lt hr.1 (Float.lt_of_le_of_lt hrx hlow)) (Float.lt_irrefl _)
    · split
      · exact hr.2
      · exact hrx

/-- Clamping something no larger than a rate in range gives no larger a rate. -/
theorem clampRate_le {r x : Float} (hr : RateInRange r) (hx : x ≤ r) : clampRate x ≤ r := by
  unfold clampRate
  split
  · next hnan =>
    rw [isNaN_scalar, Float.isNaN_left_of_le hx] at hnan
    cases hnan
  · split
    · exact hr.1
    · split
      · next hhigh =>
        exact absurd (Float.lt_of_lt_of_le hhigh (Float.le_trans hx hr.2)) (Float.lt_irrefl _)
      · exact hx

theorem minTemperature_le_floorTemperature (t : Float) : minTemperature ≤ floorTemperature t := by
  unfold floorTemperature
  split
  · assumption
  · decide

theorem floorTemperature_of_le {t : Float} (h : minTemperature ≤ t) : floorTemperature t = t :=
  if_pos h

/-- The floor of something NaN or no larger than a temperature in range is no larger. -/
theorem floorTemperature_le {t T : Float} (hT : minTemperature ≤ T)
    (ht : t.isNaN = true ∨ t ≤ T) : floorTemperature t ≤ T := by
  unfold floorTemperature
  split
  · next h => exact ht.resolve_left (by rw [Float.isNaN_right_of_le h]; decide)
  · exact hT

theorem isFinite_floorTemperature {t : Float} (ht : t.isFinite = true) :
    (floorTemperature t).isFinite = true := by
  unfold floorTemperature
  split
  · exact ht
  · exact isFinite_minTemperature

/-- At or above `minTemperature` a double is positive, so if it is not finite it is `+∞`. -/
theorem toEReal_eq_top {t : Float} (h : minTemperature ≤ t) (hfin : t.isFinite = false) :
    toEReal t = ⊤ := by
  have hpos : 0 < toEReal t := (toEReal_pos minTemperature_pos).trans_le (toEReal_le_toEReal h)
  by_contra htop
  rw [isFinite_iff.2 ⟨Float.isNaN_right_of_le h, htop, ne_bot_of_gt hpos⟩] at hfin
  cases hfin

/-- The floor is at least `minTemperature` and never NaN, and it is infinite exactly when what it
floors is `+∞`. -/
theorem floorTemperature_laws (x : Float) :
    minTemperature ≤ floorTemperature x ∧ (floorTemperature x).isNaN = false ∧
      ((floorTemperature x).isFinite = false ↔ toEReal x = ⊤) := by
  have hmin := minTemperature_le_floorTemperature x
  refine ⟨hmin, Float.isNaN_right_of_le hmin, ⟨fun hfin => ?_, fun htop => ?_⟩⟩
  · unfold floorTemperature at hfin
    split at hfin
    · next h => exact toEReal_eq_top h hfin
    · rw [isFinite_minTemperature] at hfin
      cases hfin
  · have hx : x.isNaN = false := by
      cases h : x.isNaN
      · rfl
      · rw [toEReal_of_isNaN h] at htop
        exact absurd htop EReal.zero_ne_top
    rw [floorTemperature_of_le (le_of_toEReal_le (Float.isNaN_right_of_lt minTemperature_pos) hx
      (htop ▸ le_top))]
    cases hf : x.isFinite
    · rfl
    · exact absurd htop (isFinite_iff.1 hf).2.1

end Schedule

namespace Adaptive.Controller

open Schedule

variable {c : Controller Float} {b : Bool}

theorem replay_settings {α : Type} [Scalar α] (c : Controller α) (calls : List Call) :
    (c.replay calls).settings = c.settings := by
  induction calls generalizing c with
  | nil => rfl
  | cons call rest ih =>
    rw [replay_cons, ih]
    cases call <;> simp [apply]

/-! ## What a record does to the rate -/

/-- A record answers nothing and keeps the rate, or slows down or speeds up to a clamped rate. -/
theorem record_cases (c : Controller Float) (b : Bool) :
    ((c.record b).1 = none ∧ (c.record b).2.rate = c.rate) ∨
      ((c.record b).1 = some .slower ∧
        (c.record b).2.rate = clampRate (c.rate + c.settings.step * (1.0 - c.rate))) ∨
      ((c.record b).1 = some .faster ∧
        (c.record b).2.rate = clampRate (c.rate - c.settings.step * c.rate)) := by
  have hd := record_decision c b
  dsimp only at hd
  split at hd
  · exact Or.inl (Prod.mk.inj hd)
  · split at hd
    · exact Or.inr (Or.inl (Prod.mk.inj hd))
    · split at hd
      · exact Or.inr (Or.inr (Prod.mk.inj hd))
      · exact Or.inl (Prod.mk.inj hd)

theorem record_slower (h : (c.record b).1 = some .slower) :
    (c.record b).2.rate = clampRate (c.rate + c.settings.step * (1.0 - c.rate)) := by
  rcases record_cases c b with ⟨h', -⟩ | ⟨-, h'⟩ | ⟨h', -⟩
  · rw [h'] at h
    cases h
  · exact h'
  · rw [h'] at h
    cases h

theorem record_faster (h : (c.record b).1 = some .faster) :
    (c.record b).2.rate = clampRate (c.rate - c.settings.step * c.rate) := by
  rcases record_cases c b with ⟨h', -⟩ | ⟨h', -⟩ | ⟨-, h'⟩
  · rw [h'] at h
    cases h
  · rw [h'] at h
    cases h
  · exact h'

/-! ## The invariant -/

/-- The ranges the controller keeps: the rate in `[minRate, maxRate]` and the temperature at or
above `minTemperature`. -/
structure InRange (c : Controller Float) : Prop where
  rate : RateInRange c.rate
  temperature : minTemperature ≤ c.temperature

theorem inRange_start (settings : AdaptiveSettings Float) (t0 a : Float) :
    InRange (start settings t0 a) :=
  ⟨clampRate_mem a, minTemperature_le_floorTemperature t0⟩

namespace InRange

variable (hc : InRange c)
include hc

theorem temperature_nonneg : 0.0 ≤ c.temperature :=
  Float.le_of_lt (Float.lt_of_lt_of_le minTemperature_pos hc.temperature)

theorem record (b : Bool) : InRange (c.record b).2 := by
  refine ⟨?_, by rw [record_temperature]; exact hc.temperature⟩
  rcases record_cases c b with ⟨-, h⟩ | ⟨-, h⟩ | ⟨-, h⟩ <;> rw [h]
  · exact hc.rate
  · exact clampRate_mem _
  · exact clampRate_mem _

theorem cool : InRange c.cool :=
  ⟨hc.rate, minTemperature_le_floorTemperature _⟩

/-- A cooling step never raises the temperature: the product with a rate at most one is no
larger, and a NaN product is floored to `minTemperature`. -/
theorem cool_temperature_le : c.cool.temperature ≤ c.temperature := by
  show floorTemperature (c.temperature * c.rate) ≤ c.temperature
  apply floorTemperature_le hc.temperature
  cases h : (c.temperature * c.rate).isNaN
  · exact Or.inr (mul_le_of_le_one hc.temperature_nonneg hc.rate.le_one h)
  · exact Or.inl rfl

/-- A cooling step keeps a finite temperature finite and `+∞` at `+∞`. -/
theorem isFinite_cool : c.cool.temperature.isFinite = c.temperature.isFinite := by
  show (floorTemperature (c.temperature * c.rate)).isFinite = _
  have hT := hc.temperature_nonneg
  have hpos := toEReal_pos hc.rate.pos
  have hprod : (c.temperature * c.rate).isNaN = false :=
    isNaN_mul_of_isFinite (Float.isNaN_right_of_le hT) hc.rate.isFinite hpos.ne'
  cases hfin : c.temperature.isFinite
  · -- the temperature is `+∞`, and so is its product with a positive rate
    have hx : toEReal (c.temperature * c.rate) = ⊤ := by
      rw [toEReal_mul hprod, toEReal_eq_top hc.temperature hfin, EReal.top_mul_of_pos hpos,
        roundE_top]
    exact (floorTemperature_laws _).2.2.2 hx
  · -- a finite temperature: the product lies between zero and the temperature
    exact isFinite_floorTemperature (isFinite_of_le_of_le (by decide) hfin
      (mul_nonneg hT (Float.le_of_lt hc.rate.pos) hprod)
      (mul_le_of_le_one hT hc.rate.le_one hprod))

/-- Slowing down with a step that is not negative never lowers the rate. -/
theorem le_rate_of_slower (hstep : 0.0 ≤ c.settings.step) (h : (c.record b).1 = some .slower) :
    c.rate ≤ (c.record b).2.rate := by
  rw [record_slower h]
  apply le_clampRate hc.rate
  cases hsum : (c.rate + c.settings.step * (1.0 - c.rate)).isNaN
  · -- the sum is the rate plus a product of two nonnegative doubles
    have hdiff : (1.0 - c.rate).isNaN = false := isNaN_sub_of_isFinite (by decide) hc.rate.isNaN
    have hgap : 0.0 ≤ 1.0 - c.rate := sub_nonneg_of_le hc.rate.le_one hdiff
    exact Or.inr (le_add_of_nonneg hc.rate.isNaN
      (mul_nonneg hstep hgap (isNaN_right_of_add hsum)) hsum)
  · exact Or.inl rfl

/-- Speeding up with a step that is not negative never raises the rate. -/
theorem rate_le_of_faster (hstep : 0.0 ≤ c.settings.step) (h : (c.record b).1 = some .faster) :
    (c.record b).2.rate ≤ c.rate := by
  rw [record_faster h]
  apply clampRate_le hc.rate
  have hprod : (c.settings.step * c.rate).isNaN = false :=
    isNaN_mul_of_isFinite (Float.isNaN_right_of_le hstep) hc.rate.isFinite
      (toEReal_pos hc.rate.pos).ne'
  exact sub_le_self_of_nonneg hc.rate.isNaN (mul_nonneg hstep (Float.le_of_lt hc.rate.pos) hprod)
    (isNaN_sub_of_isFinite hc.rate.isFinite hprod)

theorem apply (call : Call) : InRange (c.apply call) := by
  cases call with
  | record b => exact hc.record b
  | cool => exact hc.cool

end InRange

/-- The invariant holds after any calls. -/
theorem InRange.replay (calls : List Call) : ∀ {c : Controller Float}, InRange c →
    InRange (c.replay calls) := by
  induction calls with
  | nil => exact fun hc => hc
  | cons call rest ih => exact fun hc => ih (hc.apply call)

/-- Calls never change whether the temperature is finite. -/
theorem InRange.isFinite_replay (calls : List Call) : ∀ {c : Controller Float}, InRange c →
    (c.replay calls).temperature.isFinite = c.temperature.isFinite := by
  induction calls with
  | nil => exact fun _ => rfl
  | cons call rest ih =>
    intro c hc
    rw [replay_cons, ih (hc.apply call)]
    cases call with
    | record b =>
      show (c.record b).2.temperature.isFinite = _
      rw [record_temperature]
    | cool => exact hc.isFinite_cool

/-- The adaptive controller in doubles, for any settings, starting temperature and rate, after
any calls: the rate lies in `[minRate, maxRate]` and the temperature at or above
`minTemperature`, neither NaN; the temperature is finite exactly when the floored starting
temperature is; the next cooling step does not raise it and changes nothing else, and the next
record does not change it; with a step that is not negative, slowing down does not lower the
rate and speeding up does not raise it. -/
theorem controller_stays_in_range (settings : AdaptiveSettings Float) (t0 a : Float)
    (calls : List Call) (b : Bool) :
    let c := (start settings t0 a).replay calls
    (minRate ≤ c.rate ∧ c.rate ≤ maxRate ∧ c.rate.isNaN = false) ∧
      (minTemperature ≤ c.temperature ∧ c.temperature.isNaN = false) ∧
      c.temperature.isFinite = (floorTemperature t0).isFinite ∧
      c.cool.temperature ≤ c.temperature ∧
      c.cool = { c with temperature := c.cool.temperature } ∧
      (c.record b).2.temperature = c.temperature ∧
      (0.0 ≤ settings.step →
        ((c.record b).1 = some .slower → c.rate ≤ (c.record b).2.rate) ∧
        ((c.record b).1 = some .faster → (c.record b).2.rate ≤ c.rate)) := by
  intro c
  have hc : InRange c := (inRange_start settings t0 a).replay calls
  have hstep : c.settings.step = settings.step := by
    rw [replay_settings]
    rfl
  refine ⟨⟨hc.rate.1, hc.rate.2, hc.rate.isNaN⟩,
    ⟨hc.temperature, Float.isNaN_right_of_le hc.temperature⟩,
    (inRange_start settings t0 a).isFinite_replay calls, hc.cool_temperature_le, rfl,
    record_temperature c b, fun h => ⟨hc.le_rate_of_slower (hstep ▸ h),
      hc.rate_le_of_faster (hstep ▸ h)⟩⟩

/-- With the standard settings the step is a tenth, so the direction laws hold after any calls. -/
theorem standard_record_direction :
    let c := (start (AdaptiveSettings.standard : AdaptiveSettings Float) 100.0 0.5).replay
      [.cool, .record true]
    (0.0 : Float) ≤ AdaptiveSettings.standard.step ∧
      ((c.record false).1 = some .slower → c.rate ≤ (c.record false).2.rate) ∧
      ((c.record false).1 = some .faster → (c.record false).2.rate ≤ c.rate) :=
  ⟨by decide, (controller_stays_in_range AdaptiveSettings.standard 100.0 0.5
    [.cool, .record true] false).2.2.2.2.2.2 (by decide)⟩

end Adaptive.Controller

end Annealing
