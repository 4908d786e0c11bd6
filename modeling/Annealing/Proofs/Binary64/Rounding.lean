import Mathlib
import Annealing.Proofs.Binary64.Value

/-!
# Rounding to the nearest double

IEEE arithmetic gives the exact result rounded to the nearest double, ties to the even
mantissa, and a result beyond the largest double becomes an infinity of its sign. This module
states that rounding on the reals and proves the two facts about it that every bound on
floating-point code rests on: it is monotone, and it leaves a double alone.

A positive real `v` is rounded on the grid of multiples of `2^(quantum v)`, the last place of a
53-bit mantissa led by the leading bit of `v`, never finer than the subnormal grid `2^-1074`.
On one grid, rounding is the nearest integer scaled, so it is monotone. Across grids the two
reals are separated by a power of two that lies on both grids (`nearestMag_mono`): rounding
never passes a point of its own grid, so the smaller real rounds to at most that power and the
larger to at least it. Negative reals round as their magnitude does, and `nearestExt` sends
whatever rounds beyond `2^1024` to `⊤` or `⊥`.
-/

namespace Annealing.Binary64

/-! ## The nearest integer, ties to even -/

/-- The integer nearest to `y`; at a tie, the even one. -/
noncomputable def roundEven (y : ℝ) : ℤ :=
  if y - ⌊y⌋ < 1 / 2 then ⌊y⌋
  else if 1 / 2 < y - ⌊y⌋ then ⌊y⌋ + 1
  else ⌊y⌋ + ⌊y⌋ % 2

theorem roundEven_bounds (y : ℝ) : ⌊y⌋ ≤ roundEven y ∧ roundEven y ≤ ⌊y⌋ + 1 := by
  have h0 := Int.emod_nonneg ⌊y⌋ (by norm_num : (2 : ℤ) ≠ 0)
  have h1 := Int.emod_lt_of_pos ⌊y⌋ (by norm_num : (0 : ℤ) < 2)
  unfold roundEven
  split_ifs <;> omega

@[simp] theorem roundEven_intCast (k : ℤ) : roundEven k = k := by
  simp [roundEven]

theorem roundEven_mono {y z : ℝ} (h : y ≤ z) : roundEven y ≤ roundEven z := by
  rcases (Int.floor_mono h).lt_or_eq with hlt | heq
  · -- a whole integer apart, the bounds suffice
    have := (roundEven_bounds y).2
    have := (roundEven_bounds z).1
    omega
  · -- one integer part: the fractional parts are ordered, and so are the three branches
    have hf : y - ⌊y⌋ ≤ z - ⌊z⌋ := by rw [heq]; linarith
    unfold roundEven
    rw [heq]
    have h0 := Int.emod_nonneg ⌊z⌋ (by norm_num : (2 : ℤ) ≠ 0)
    have h1 := Int.emod_lt_of_pos ⌊z⌋ (by norm_num : (0 : ℤ) < 2)
    split_ifs <;> first | omega | (exfalso; linarith)

theorem roundEven_le_of_le {y : ℝ} {k : ℤ} (h : y ≤ k) : roundEven y ≤ k := by
  simpa using roundEven_mono h

theorem le_roundEven_of_le {y : ℝ} {k : ℤ} (h : (k : ℝ) ≤ y) : k ≤ roundEven y := by
  simpa using roundEven_mono h

/-! ## Rounding a magnitude -/

/-- The exponent of the last place kept when a positive real is rounded: 52 places below its
leading bit, but never below the subnormal exponent `-1074`. -/
noncomputable def quantum (v : ℝ) : ℤ := max (Int.log 2 v - 52) (-1074)

/-- A real `v ≥ 0` rounded to the nearest double, ties to even, with no largest exponent. -/
noncomputable def nearestMag (v : ℝ) : ℝ := roundEven (v / 2 ^ quantum v) * 2 ^ quantum v

section Magnitude

variable {v w : ℝ}

/-- Rounding never passes a point of its own grid from below. -/
theorem nearestMag_le_of_le {k : ℤ} (h : v ≤ k * 2 ^ quantum v) :
    nearestMag v ≤ k * 2 ^ quantum v := by
  have hq := two_pow_pos (quantum v)
  have hk : v / 2 ^ quantum v ≤ k := by rw [div_le_iff₀ hq]; exact h
  exact mul_le_mul_of_nonneg_right (by exact_mod_cast roundEven_le_of_le hk) hq.le

/-- Rounding never passes a point of its own grid from above. -/
theorem le_nearestMag_of_le {k : ℤ} (h : k * 2 ^ quantum v ≤ v) :
    k * 2 ^ quantum v ≤ nearestMag v := by
  have hq := two_pow_pos (quantum v)
  have hk : (k : ℝ) ≤ v / 2 ^ quantum v := by rw [le_div_iff₀ hq]; exact h
  exact mul_le_mul_of_nonneg_right (by exact_mod_cast le_roundEven_of_le hk) hq.le

@[simp] theorem nearestMag_zero : nearestMag 0 = 0 := by
  have h : roundEven 0 = 0 := by exact_mod_cast roundEven_intCast 0
  simp [nearestMag, h]

theorem nearestMag_nonneg (hv : 0 ≤ v) : 0 ≤ nearestMag v := by
  simpa using le_nearestMag_of_le (v := v) (k := 0) (by simpa using hv)

theorem quantum_mono (hv : 0 < v) (h : v ≤ w) : quantum v ≤ quantum w :=
  max_le_max (by have := Int.log_mono_right (b := 2) hv h; omega) le_rfl

/-- A power of two at least as coarse as the grid is a point of the grid. -/
theorem two_zpow_eq_grid {a k : ℤ} (h : a ≤ k) :
    (2 : ℝ) ^ k = ((2 ^ (k - a).toNat : ℤ) : ℝ) * 2 ^ a := by
  rw [Int.cast_pow, Int.cast_ofNat, ← zpow_natCast, ← zpow_add₀ two_ne_zero]
  congr 1
  omega

/-- Rounding is monotone on the magnitudes. -/
theorem nearestMag_mono (hv : 0 ≤ v) (h : v ≤ w) : nearestMag v ≤ nearestMag w := by
  rcases hv.lt_or_eq with hv | rfl
  · have hw := hv.trans_le h
    rcases (quantum_mono hv h).lt_or_eq with hlt | heq
    · -- `w` lies in a higher binade: its leading power of two separates the two roundings
      have hb : quantum w = Int.log 2 w - 52 := by unfold quantum at hlt ⊢; omega
      have hlog : Int.log 2 v - 52 ≤ quantum v := le_max_left _ _
      set K := max (Int.log 2 v + 1) (quantum v) with hK
      have hv_le : v ≤ (2 : ℝ) ^ K :=
        (Int.lt_zpow_succ_log_self (by norm_num) v).le.trans
          (zpow_le_zpow_right₀ (by norm_num) (le_max_left _ _))
      have hlow : nearestMag v ≤ (2 : ℝ) ^ K := by
        rw [two_zpow_eq_grid (le_max_right _ _)] at hv_le ⊢
        exact nearestMag_le_of_le hv_le
      have hhigh : (2 : ℝ) ^ Int.log 2 w ≤ nearestMag w := by
        have hgrid := two_zpow_eq_grid (a := quantum w) (k := Int.log 2 w) (by omega)
        rw [hgrid]
        exact le_nearestMag_of_le (by rw [← hgrid]; exact Int.zpow_log_le_self (by norm_num) hw)
      calc nearestMag v ≤ 2 ^ K := hlow
        _ ≤ 2 ^ Int.log 2 w := zpow_le_zpow_right₀ (by norm_num) (by omega)
        _ ≤ nearestMag w := hhigh
    · -- one grid: the nearest integers are ordered
      unfold nearestMag
      rw [heq]
      have hq := two_pow_pos (quantum w)
      exact mul_le_mul_of_nonneg_right
        (by exact_mod_cast roundEven_mono (div_le_div_of_nonneg_right h hq.le)) hq.le
  · rw [nearestMag_zero]
    exact nearestMag_nonneg h

theorem log_two_eq {r : ℝ} {k : ℤ} (h₁ : (2 : ℝ) ^ k ≤ r) (h₂ : r < 2 ^ (k + 1)) :
    Int.log 2 r = k := by
  have hr : 0 < r := (two_pow_pos k).trans_le h₁
  have hle := (Int.zpow_le_iff_le_log (b := 2) (by norm_num) hr).1 (by exact_mod_cast h₁)
  have hlt := (Int.lt_zpow_iff_log_lt (b := 2) (by norm_num) hr).1 (by exact_mod_cast h₂)
  omega

/-- The leading bit of `m · 2^e` is at `log2 m + e`. -/
theorem two_pow_log2_le {m : ℕ} (hm : 0 < m) (e : ℤ) :
    (2 : ℝ) ^ ((m.log2 : ℤ) + e) ≤ m * 2 ^ e := by
  rw [zpow_add₀ two_ne_zero, zpow_natCast]
  exact mul_le_mul_of_nonneg_right (by exact_mod_cast Nat.log2_self_le (by omega))
    (two_pow_pos e).le

theorem lt_two_pow_log2 (m : ℕ) (e : ℤ) : (m : ℝ) * 2 ^ e < 2 ^ ((m.log2 : ℤ) + e + 1) := by
  rw [show (m.log2 : ℤ) + e + 1 = ((m.log2 + 1 : ℕ) : ℤ) + e by push_cast; ring,
    zpow_add₀ two_ne_zero, zpow_natCast]
  exact mul_lt_mul_of_pos_right (by exact_mod_cast Nat.lt_log2_self) (two_pow_pos e)

/-- The leading bit of `m · 2^e` is that of `m`, moved by `e`. -/
theorem log_two_mantissa {m : ℕ} (hm : 0 < m) (e : ℤ) :
    Int.log 2 ((m : ℝ) * 2 ^ e) = m.log2 + e :=
  log_two_eq (two_pow_log2_le hm e) (lt_two_pow_log2 m e)

theorem quantum_canonical {m : ℕ} {e : ℤ} (hm : 0 < m) (hc : Canonical m e) :
    quantum ((m : ℝ) * 2 ^ e) = e := by
  have hlog : m.log2 < 53 := (Nat.log2_lt (by omega)).2 hc.lt_two_pow
  have hle := hc.le_exponent
  unfold quantum
  rw [log_two_mantissa hm]
  rcases hc.normal with hn | rfl
  · have : 52 ≤ m.log2 := (Nat.le_log2 (by omega)).2 hn
    omega
  · omega

/-- A double rounds to itself. -/
theorem nearestMag_canonical {m : ℕ} {e : ℤ} (hm : 0 < m) (hc : Canonical m e) :
    nearestMag ((m : ℝ) * 2 ^ e) = m * 2 ^ e := by
  unfold nearestMag
  rw [quantum_canonical hm hc, mul_div_cancel_right₀ _ (two_pow_pos e).ne']
  exact_mod_cast congrArg (fun k : ℤ => (k : ℝ) * 2 ^ e) (roundEven_intCast m)

end Magnitude

/-! ## Rounding a signed real -/

/-- A real rounded to the nearest double, ties to even, with no largest exponent: the magnitude
rounds and the sign stays. -/
noncomputable def nearest (x : ℝ) : ℝ := if 0 ≤ x then nearestMag x else -nearestMag (-x)

section Signed

variable {x y : ℝ}

@[simp] theorem nearest_zero : nearest 0 = 0 := by simp [nearest]

theorem nearest_signed (s : Float.Model.UnpackedFloat.Sign) {v : ℝ} (hv : 0 ≤ v) :
    nearest (signed s v) = signed s (nearestMag v) := by
  cases s
  · rcases hv.lt_or_eq with hv | rfl
    · simp [nearest, not_le.2 (neg_neg_of_pos hv)]
    · simp
  · simp [nearest, hv]

/-- Rounding is monotone. -/
theorem nearest_mono (h : x ≤ y) : nearest x ≤ nearest y := by
  unfold nearest
  split_ifs with hx hy hy
  · exact nearestMag_mono hx h
  · exact absurd (hx.trans h) hy
  · exact (neg_nonpos.2 (nearestMag_nonneg (by linarith))).trans (nearestMag_nonneg hy)
  · exact neg_le_neg (nearestMag_mono (by linarith) (by linarith))

theorem nearest_nonneg (hx : 0 ≤ x) : 0 ≤ nearest x := by
  simpa using nearest_mono hx

theorem nearest_nonpos (hx : x ≤ 0) : nearest x ≤ 0 := by
  simpa using nearest_mono hx

/-- A finite double rounds to itself. -/
theorem nearest_value {u : Float.Model.UnpackedFloat} (h : Holds u) :
    nearest (value u) = value u := by
  cases u with
  | finite s m e hm =>
    rw [value_finite, nearest_signed s (magnitude_pos hm e).le, nearestMag_canonical hm h.1]
  | _ => simp [value]

end Signed

/-! ## Overflow -/

/-- A real rounded to a double in the extended reals: the nearest double, or `⊤` or `⊥` once
the rounded magnitude reaches `2^1024`, beyond the largest double. -/
noncomputable def nearestExt (x : ℝ) : EReal :=
  if |nearest x| < 2 ^ 1024 then (nearest x : EReal) else if 0 < x then ⊤ else ⊥

section Extended

variable {x y : ℝ}

/-- Rounding with overflow is monotone. -/
theorem nearestExt_mono (h : x ≤ y) : nearestExt x ≤ nearestExt y := by
  have hn := nearest_mono h
  unfold nearestExt
  by_cases hx : |nearest x| < 2 ^ 1024 <;> by_cases hy : |nearest y| < 2 ^ 1024
  · rw [if_pos hx, if_pos hy]
    exact EReal.coe_le_coe_iff.2 hn
  · rw [if_pos hx, if_neg hy]
    split_ifs with hy0
    · exact le_top
    · -- `y` overflows downwards, so `x` would too
      exfalso
      have hy' := nearest_nonpos (not_lt.1 hy0)
      rw [abs_lt] at hx
      rw [not_lt, abs_of_nonpos hy'] at hy
      linarith
  · rw [if_neg hx, if_pos hy]
    split_ifs with hx0
    · -- `x` overflows upwards, so `y` would too
      exfalso
      have hx' := nearest_nonneg hx0.le
      rw [not_lt, abs_of_nonneg hx'] at hx
      rw [abs_lt] at hy
      linarith
    · exact bot_le
  · rw [if_neg hx, if_neg hy]
    split_ifs with hx0 hy0 hy0
    · exact le_rfl
    · exact absurd (hx0.trans_le h) hy0
    · exact bot_le
    · exact bot_le

@[simp] theorem nearestExt_zero : nearestExt 0 = 0 := by
  simp [nearestExt]

/-- A double held finitely rounds to itself. -/
theorem nearestExt_value {u : Float.Model.UnpackedFloat} (h : Holds u) :
    nearestExt (value u) = value u := by
  rw [nearestExt, nearest_value h, if_pos]
  cases u with
  | finite s m e hm =>
    have hbound := h.1.lt_overflow h.2
    cases s <;> simpa [abs_of_pos (magnitude_pos hm e)] using hbound
  | _ => simp [value]

end Extended

end Annealing.Binary64
