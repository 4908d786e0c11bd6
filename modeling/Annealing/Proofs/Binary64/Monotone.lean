import Mathlib
import Annealing.Proofs.Binary64.Extended

/-!
# The operations on doubles are monotone

Rounding is monotone and keeps every double, so whatever the exact operation does to the order,
the rounded one does too, as long as its result is not NaN. This file states the instances the
cooling and acceptance code needs, in the IEEE order on `Float`: adding something nonnegative
does not go down, subtracting it does not go up, multiplying by a factor in `[0, 1]` does not go
up, subtraction is monotone in its first operand and antitone in its second, and division by a
positive double is monotone in the dividend and, for a nonpositive dividend, in the divisor.
Each is one inequality of extended reals, carried through `roundE`. Read the same way, a positive
double is finite exactly when it is below `+∞`.

It also says when these results are not NaN: subtracting from a finite double, subtracting a
larger double, and multiplying by a finite double that is not zero.
-/

namespace Annealing.Binary64

@[simp] theorem toEReal_zero : toEReal 0.0 = 0 := rfl

@[simp] theorem toEReal_one : toEReal 1.0 = 1 := by
  rw [toEReal, show (1.0 : Float).toModel.unpack = .finite .positive (2 ^ 52) (-52)
    (by decide) from rfl, extValue_finite, signed_positive]
  norm_num

theorem isNaN_zero : (0.0 : Float).isNaN = false := rfl

@[simp] theorem toReal_zero : toReal 0.0 = 0 := rfl

@[simp] theorem toReal_one : toReal 1.0 = 1 := by
  rw [toReal, show (1.0 : Float).toModel.unpack = .finite .positive (2 ^ 52) (-52)
    (by decide) from rfl, value_finite, signed_positive]
  norm_num

theorem isFinite_zero : (0.0 : Float).isFinite = true := rfl

theorem isFinite_one : (1.0 : Float).isFinite = true := rfl

/-- What would make a result NaN fails for a result that is not NaN. -/
theorem not_of_isNaN_eq_false {z : Float} {P : Prop} (h : z.isNaN = false)
    (hP : P → z.isNaN = true) : ¬ P :=
  fun hp => Bool.false_ne_true (h.symm.trans (hP hp))

section Order

variable {x y z : Float}

/-- A comparison that holds is a comparison of values; it also says that neither side is NaN. -/
theorem toEReal_le_toEReal (h : x ≤ y) : toEReal x ≤ toEReal y :=
  (le_iff_toEReal (Float.isNaN_left_of_le h) (Float.isNaN_right_of_le h)).1 h

theorem toEReal_lt_toEReal (h : x < y) : toEReal x < toEReal y :=
  (lt_iff_toEReal (Float.isNaN_left_of_lt h) (Float.isNaN_right_of_lt h)).1 h

theorem toEReal_nonneg (h : 0.0 ≤ x) : 0 ≤ toEReal x := by
  simpa using toEReal_le_toEReal h

theorem toEReal_nonpos (h : x ≤ 0.0) : toEReal x ≤ 0 := by
  simpa using toEReal_le_toEReal h

theorem toEReal_pos (h : 0.0 < x) : 0 < toEReal x := by
  simpa using toEReal_lt_toEReal h

theorem le_of_toEReal_le (hx : x.isNaN = false) (hy : y.isNaN = false)
    (h : toEReal x ≤ toEReal y) : x ≤ y :=
  (le_iff_toEReal hx hy).2 h

theorem lt_iff_toReal (hx : x.isFinite = true) (hy : y.isFinite = true) :
    x < y ↔ toReal x < toReal y := by
  rw [lt_iff_toEReal (isFinite_iff.1 hx).1 (isFinite_iff.1 hy).1, toEReal_eq_toReal hx,
    toEReal_eq_toReal hy, EReal.coe_lt_coe_iff]

@[simp] theorem toEReal_inf : toEReal (1.0 / 0.0) = ⊤ := by
  rw [toEReal, Float.unpack_inf]
  rfl

/-- A positive double is finite exactly when it is below `+∞`: positivity already rules out NaN
and `-∞`. -/
theorem isFinite_iff_lt_inf (hx : 0.0 < x) : x.isFinite = true ↔ x < 1.0 / 0.0 := by
  have hn := Float.isNaN_right_of_lt hx
  have hb : toEReal x ≠ ⊥ := ne_bot_of_gt (toEReal_pos hx)
  rw [isFinite_iff, lt_iff_toEReal hn Float.isNaN_inf, toEReal_inf, lt_top_iff_ne_top]
  exact ⟨fun h => h.2.1, fun h => ⟨hn, h, hb⟩⟩

/-- A rounded result lies on the side of a double that the exact result lies on. -/
theorem toEReal_le_of_le_round {r : EReal} (hr : r ≤ toEReal y) : roundE r ≤ toEReal y :=
  (roundE_mono hr).trans_eq (roundE_toEReal y)

theorem le_toEReal_of_round_le {r : EReal} (hr : toEReal y ≤ r) : toEReal y ≤ roundE r :=
  (roundE_toEReal y).symm.trans_le (roundE_mono hr)

end Order

/-! ## Monotone operations -/

section Monotone

variable {x x' y y' : Float}

theorem le_add_of_nonneg (hx : x.isNaN = false) (hy : 0.0 ≤ y)
    (h : (x + y).isNaN = false) : x ≤ x + y := by
  refine le_of_toEReal_le hx h ?_
  rw [toEReal_add h]
  exact le_toEReal_of_round_le (le_add_of_nonneg_right (toEReal_nonneg hy))

theorem sub_le_self_of_nonneg (hx : x.isNaN = false) (hy : 0.0 ≤ y)
    (h : (x - y).isNaN = false) : x - y ≤ x := by
  refine le_of_toEReal_le h hx ?_
  rw [toEReal_sub h]
  exact toEReal_le_of_le_round (by simpa using EReal.sub_le_sub le_rfl (toEReal_nonneg hy))

/-- Subtraction is monotone in the first operand and antitone in the second. -/
theorem sub_le_sub (hx : x ≤ x') (hy : y' ≤ y) (h : (x - y).isNaN = false)
    (h' : (x' - y').isNaN = false) : x - y ≤ x' - y' := by
  refine le_of_toEReal_le h h' ?_
  rw [toEReal_sub h, toEReal_sub h']
  exact roundE_mono (EReal.sub_le_sub (toEReal_le_toEReal hx) (toEReal_le_toEReal hy))

theorem sub_nonneg_of_le (hxy : y ≤ x) (h : (x - y).isNaN = false) : 0.0 ≤ x - y := by
  -- a difference that is not NaN is not one of two equal infinities
  have htop : ¬ (toEReal x = ⊤ ∧ toEReal y = ⊤) :=
    not_of_isNaN_eq_false h fun hxy' => isNaN_sub.2 (Or.inr (Or.inr (Or.inl hxy')))
  have hbot : ¬ (toEReal x = ⊥ ∧ toEReal y = ⊥) :=
    not_of_isNaN_eq_false h fun hxy' => isNaN_sub.2 (Or.inr (Or.inr (Or.inr hxy')))
  refine le_of_toEReal_le isNaN_zero h ?_
  rw [toEReal_sub h, toEReal_zero, ← roundE_zero]
  exact roundE_mono ((EReal.sub_nonneg (not_and_or.1 htop) (not_and_or.1 hbot)).2
    (toEReal_le_toEReal hxy))

theorem sub_nonpos_of_le (hxy : x ≤ y) (h : (x - y).isNaN = false) : x - y ≤ 0.0 := by
  refine le_of_toEReal_le h isNaN_zero ?_
  rw [toEReal_sub h, toEReal_zero, ← roundE_zero]
  exact roundE_mono (EReal.sub_nonpos.2 (toEReal_le_toEReal hxy))

theorem mul_nonneg (hx : 0.0 ≤ x) (hy : 0.0 ≤ y) (h : (x * y).isNaN = false) :
    0.0 ≤ x * y := by
  refine le_of_toEReal_le isNaN_zero h ?_
  rw [toEReal_mul h, toEReal_zero, ← roundE_zero]
  exact roundE_mono (EReal.mul_nonneg (toEReal_nonneg hx) (toEReal_nonneg hy))

/-- Scaling a nonnegative double by a factor in `[0, 1]` does not make it larger. -/
theorem mul_le_of_le_one (hx : 0.0 ≤ x) (hy : y ≤ 1.0) (h : (x * y).isNaN = false) :
    x * y ≤ x := by
  refine le_of_toEReal_le h (Float.isNaN_right_of_le hx) ?_
  rw [toEReal_mul h]
  refine toEReal_le_of_le_round ?_
  calc toEReal x * toEReal y ≤ toEReal x * 1 :=
        mul_le_mul_of_nonneg_left (by simpa using toEReal_le_toEReal hy) (toEReal_nonneg hx)
    _ = toEReal x := mul_one _

/-- Division by a positive double is monotone in the dividend. -/
theorem div_le_div_of_le_left (hx : x ≤ x') (hy : 0.0 < y) (h : (x / y).isNaN = false)
    (h' : (x' / y).isNaN = false) : x / y ≤ x' / y := by
  have hy0 := (toEReal_pos hy).ne'
  refine le_of_toEReal_le h h' ?_
  rw [toEReal_div hy0 h, toEReal_div hy0 h']
  exact roundE_mono (EReal.div_le_div_right_of_nonneg (toEReal_pos hy).le (toEReal_le_toEReal hx))

/-- A nonpositive double over a larger positive double is no smaller. -/
theorem div_le_div_of_nonpos_of_le (hx : x ≤ 0.0) (hy : 0.0 < y) (hyy : y ≤ y')
    (h : (x / y).isNaN = false) (h' : (x / y').isNaN = false) : x / y ≤ x / y' := by
  have hpos := toEReal_pos hy
  have hpos' := hpos.trans_le (toEReal_le_toEReal hyy)
  refine le_of_toEReal_le h h' ?_
  rw [toEReal_div hpos.ne' h, toEReal_div hpos'.ne' h']
  refine roundE_mono ?_
  -- the reciprocal is antitone on the positive extended reals
  have hinv : (toEReal y')⁻¹ ≤ (toEReal y)⁻¹ :=
    EReal.inv_strictAntiOn.antitoneOn hpos hpos' (toEReal_le_toEReal hyy)
  rw [EReal.div_eq_inv_mul, EReal.div_eq_inv_mul]
  exact EReal.mul_le_mul_of_nonpos_right hinv (toEReal_nonpos hx)

theorem div_nonpos (hx : x ≤ 0.0) (hy : 0.0 < y) (h : (x / y).isNaN = false) : x / y ≤ 0.0 := by
  refine le_of_toEReal_le h isNaN_zero ?_
  rw [toEReal_div (toEReal_pos hy).ne' h, toEReal_zero, ← roundE_zero]
  exact roundE_mono (EReal.div_nonpos_of_nonpos_of_nonneg (toEReal_nonpos hx) (toEReal_pos hy).le)

end Monotone

/-! ## Results that are not NaN -/

section NotNaN

variable {x y : Float}

theorem toEReal_of_isNaN (hx : x.isNaN = true) : toEReal x = 0 := by
  rw [toEReal, Float.isNaN_iff_unpacked.1 hx]
  rfl

/-! A NaN operand makes the sum, the difference and the quotient NaN. -/

theorem isNaN_right_of_add (h : (x + y).isNaN = false) : y.isNaN = false :=
  Bool.eq_false_iff.2 (not_of_isNaN_eq_false h fun hy =>
    (isNaN_add (x := x)).2 (Or.inr (Or.inl hy)))

theorem isNaN_left_of_sub (h : (x - y).isNaN = false) : x.isNaN = false :=
  Bool.eq_false_iff.2 (not_of_isNaN_eq_false h fun hx => isNaN_sub.2 (Or.inl hx))

theorem isNaN_right_of_sub (h : (x - y).isNaN = false) : y.isNaN = false :=
  Bool.eq_false_iff.2 (not_of_isNaN_eq_false h fun hy => isNaN_sub.2 (Or.inr (Or.inl hy)))

/-- A NaN dividend makes the quotient NaN, whatever the divisor. -/
theorem isNaN_div_of_isNaN_left (hx : x.isNaN = true) (y : Float) : (x / y).isNaN = true := by
  rw [Float.isNaN_iff_unpacked] at hx ⊢
  show (Float.Model.pack (Float.Model.UnpackedFloat.div Float.Model.Format.binary64
    x.toModel.unpack y.toModel.unpack)).unpack = _
  rw [hx, Float.Model.UnpackedFloat.div.eq_1]
  rfl

theorem isNaN_left_of_div (h : (x / y).isNaN = false) : x.isNaN = false :=
  Bool.eq_false_iff.2 (not_of_isNaN_eq_false h fun hx => isNaN_div_of_isNaN_left hx y)

/-- A double between two finite doubles is finite. -/
theorem isFinite_of_le_of_le {a b : Float} (ha : a.isFinite = true) (hb : b.isFinite = true)
    (hax : a ≤ x) (hxb : x ≤ b) : x.isFinite = true := by
  obtain ⟨_, _, hab⟩ := isFinite_iff.1 ha
  obtain ⟨_, hbt, _⟩ := isFinite_iff.1 hb
  exact isFinite_iff.2 ⟨Float.isNaN_right_of_le hax,
    ne_top_of_le_ne_top hbt (toEReal_le_toEReal hxb),
    ne_bot_of_le_ne_bot hab (toEReal_le_toEReal hax)⟩

theorem isNaN_sub_of_isFinite (hx : x.isFinite = true) (hy : y.isNaN = false) :
    (x - y).isNaN = false := by
  obtain ⟨hxn, hxt, hxb⟩ := isFinite_iff.1 hx
  cases h : (x - y).isNaN
  · rfl
  · rw [isNaN_sub] at h
    simp_all

/-- A smaller double minus a larger one is not NaN: two infinities of one sign are equal. -/
theorem isNaN_sub_of_lt (hxy : x < y) : (x - y).isNaN = false := by
  have hlt := toEReal_lt_toEReal hxy
  cases h : (x - y).isNaN
  · rfl
  · rw [isNaN_sub, Float.isNaN_left_of_lt hxy, Float.isNaN_right_of_lt hxy] at h
    rcases h with h | h | ⟨h₁, h₂⟩ | ⟨h₁, h₂⟩
    · cases h
    · cases h
    · rw [h₁, h₂] at hlt; exact absurd hlt (lt_irrefl _)
    · rw [h₁, h₂] at hlt; exact absurd hlt (lt_irrefl _)

/-- A product with a finite factor that is not zero is not NaN. -/
theorem isNaN_mul_of_isFinite (hx : x.isNaN = false) (hy : y.isFinite = true)
    (hy0 : toEReal y ≠ 0) : (x * y).isNaN = false := by
  obtain ⟨hyn, hyt, hyb⟩ := isFinite_iff.1 hy
  cases h : (x * y).isNaN
  · rfl
  · rw [isNaN_mul] at h
    simp_all

end NotNaN

end Annealing.Binary64
