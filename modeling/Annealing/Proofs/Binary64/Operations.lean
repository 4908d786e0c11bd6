import Mathlib
import Annealing.Proofs.Binary64.Rounding

/-!
# The arithmetic of doubles rounds the exact result

Each of `+`, `-`, `*` and `/` on finite doubles computes a mantissa and an exponent for the
exact result, with a round bit and a sticky bit that say where the exact result lies between that
mantissa and the next one (`Represents`). It shifts the mantissa right until the exponent is
the last place that 53 bits keep, rounds to nearest-even, and shifts once more if rounding
carried into a 54th bit. This module proves that each stage keeps the meaning of the bits, so
that the result is the nearest double to the exact real (`Rounds`), and then reads the result
back after packing: the extended value of the double computed is `nearestExt` of the exact
result (`toEReal_add`, `toEReal_sub`, `toEReal_mul`, `toEReal_div`).
-/

namespace Annealing.Binary64

open Float.Model UnpackedFloat

/-! ## What a mantissa with a round and a sticky bit stands for -/

/-- `em` describes the real `y ≥ 0`: its integer part is the mantissa; the round bit says
whether the rest reaches a half, and the sticky bit whether anything is left beyond. -/
def Represents : ExtendedMantissa → ℝ → Prop
  | ⟨m, false, false⟩, y => y = m
  | ⟨m, false, true⟩, y => m < y ∧ y < m + 1 / 2
  | ⟨m, true, false⟩, y => y = m + 1 / 2
  | ⟨m, true, true⟩, y => m + 1 / 2 < y ∧ y < m + 1

section Represents

variable {em : ExtendedMantissa} {y : ℝ}

theorem Represents.floor (h : Represents em y) : ⌊y⌋ = em.mantissa := by
  rcases em with ⟨m, _ | _, _ | _⟩ <;> simp only [Represents] at h <;>
  · show ⌊y⌋ = (m : ℤ)
    rw [Int.floor_eq_iff]
    push_cast
    constructor <;> linarith

theorem Represents.roundedMantissa (h : Represents em y) :
    (em.roundedMantissa : ℤ) = roundEven y := by
  have hf := h.floor
  rcases em with ⟨m, _ | _, _ | _⟩ <;> simp only [Represents] at h <;>
  · change ⌊y⌋ = (m : ℤ) at hf
    simp only [ExtendedMantissa.roundedMantissa, ExtendedMantissa.accuracy,
      Accuracy.roundToNearestEven, roundEven, hf, Int.cast_natCast]
    split_ifs <;> first | rfl | (exfalso; linarith)

theorem Represents.shiftRightOne (h : Represents em y) :
    Represents em.shiftRightOne (y / 2) := by
  rcases em with ⟨m, r, s⟩
  have hm := Nat.mod_add_div m 2
  have hc : ((m % 2 : ℕ) : ℝ) + 2 * ((m / 2 : ℕ) : ℝ) = m := by exact_mod_cast hm
  rcases Nat.mod_two_eq_zero_or_one m with hr | hr <;>
  cases r <;> cases s <;>
  simp_all [Represents, ExtendedMantissa.shiftRightOne] <;>
  first | linarith | (constructor <;> linarith)

theorem Represents.shiftRight (h : Represents em y) (n : ℕ) :
    Represents (em >>> n) (y / 2 ^ n) := by
  change Represents (n.repeat ExtendedMantissa.shiftRightOne em) _
  induction n with
  | zero => simpa [Nat.repeat] using h
  | succ n ih =>
    rw [Nat.repeat, pow_succ, ← div_div]
    exact ih.shiftRightOne

/-- A quotient `q + r/d` with `r < d` is described by `q` and the accuracy of `r/d`. -/
theorem represents_fraction {q r d : ℕ} (hd : 0 < d) (hr : r < d) :
    Represents (.ofMantissaAndAccuracy q (accuracyOfFraction r d)) (q + r / d) := by
  have hd' : (0 : ℝ) < d := by exact_mod_cast hd
  have hrd : (r : ℝ) / d < 1 := by rw [div_lt_one hd']; exact_mod_cast hr
  unfold accuracyOfFraction
  split
  · next h0 => subst h0; simp [Represents, ExtendedMantissa.ofMantissaAndAccuracy]
  · next h0 =>
    have hpos : (0 : ℝ) < r / d := div_pos (by exact_mod_cast Nat.pos_of_ne_zero h0) hd'
    -- the fraction against a half is `2r` against `d`
    rcases lt_trichotomy (2 * r) d with hlt | heq | hgt
    · rw [(Nat.compare_eq_lt).2 hlt]
      have : (r : ℝ) / d < 1 / 2 := by
        rw [div_lt_iff₀ hd']; have : (2 * r : ℝ) < d := by exact_mod_cast hlt
        linarith
      exact ⟨by linarith, by linarith⟩
    · rw [(Nat.compare_eq_eq).2 heq]
      have : (r : ℝ) / d = 1 / 2 := by
        rw [div_eq_iff hd'.ne']; have : (2 * r : ℝ) = d := by exact_mod_cast heq
        linarith
      show (q : ℝ) + r / d = q + 1 / 2
      rw [this]
    · rw [(Nat.compare_eq_gt).2 hgt]
      have : 1 / 2 < (r : ℝ) / d := by
        rw [lt_div_iff₀ hd']; have : (d : ℝ) < 2 * r := by exact_mod_cast hgt
        linarith
      exact ⟨by linarith, by linarith⟩

end Represents

/-! ## Rounding a described real -/

/-- What rounding a real `v ≥ 0` and giving it a sign produces: the zero of that sign when `v`
rounds to zero, and otherwise a canonical finite pair of that sign worth `v` rounded. -/
def Rounds (s : Sign) (v : ℝ) : UnpackedFloat → Prop
  | .zero s' => s' = s ∧ nearestMag v = 0
  | .finite s' m e _ => s' = s ∧ Canonical m e ∧ (m : ℝ) * 2 ^ e = nearestMag v
  | _ => False

/-- The last place binary64 keeps for a mantissa and exponent, as the rounding code computes
it, is the quantum of the value they lead. -/
theorem target_eq_quantum {m : ℕ} {e : ℤ} {v : ℝ} (hm : 0 < m) (hv : ⌊v / 2 ^ e⌋ = m) :
    Format.binary64.targetExponent (totalExponent m e) = quantum v := by
  have hq := two_pow_pos e
  have hlo : (m : ℝ) * 2 ^ e ≤ v := by
    have := Int.floor_le (v / 2 ^ e)
    rw [hv, le_div_iff₀ hq] at this
    exact_mod_cast this
  have hhi : v < (m + 1 : ℝ) * 2 ^ e := by
    have := Int.lt_floor_add_one (v / 2 ^ e)
    rw [hv, div_lt_iff₀ hq] at this
    exact_mod_cast this
  have hlog : Int.log 2 v = m.log2 + e := by
    have hm1 : m + 1 ≤ 2 ^ (m.log2 + 1) := Nat.lt_log2_self
    apply log_two_eq
    · rw [zpow_add₀ two_ne_zero, zpow_natCast]
      exact (mul_le_mul_of_nonneg_right (by exact_mod_cast Nat.log2_self_le (by omega))
        hq.le).trans hlo
    · rw [show (m.log2 : ℤ) + e + 1 = ((m.log2 + 1 : ℕ) : ℤ) + e by push_cast; ring,
        zpow_add₀ two_ne_zero, zpow_natCast]
      exact hhi.trans_le (mul_le_mul_of_nonneg_right (by exact_mod_cast hm1) hq.le)
  simp only [Format.targetExponent, totalExponent, Format.mantissaBits, Format.minExponent,
    quantum, hlog]
  norm_num
  omega

/-- Below the subnormal grid the rounding code also settles on the least exponent. -/
theorem target_eq_quantum_small {e : ℤ} {v : ℝ} (hv : 0 < v) (he : e ≤ -1022)
    (hlt : v < 2 ^ e) : Format.binary64.targetExponent (totalExponent 0 e) = quantum v := by
  have hlog : Int.log 2 v < e := (Int.lt_zpow_iff_log_lt (b := 2) (by norm_num) hv).1
    (by exact_mod_cast hlt)
  simp only [Format.targetExponent, totalExponent, Format.mantissaBits, Format.minExponent,
    quantum]
  norm_num
  omega

section RoundWithAccuracy

variable {m : ℕ} {e : ℤ} {acc : Accuracy} {v : ℝ}

/-- A rounded magnitude fits in 53 bits, or is exactly `2^53`. -/
theorem roundEven_le_two_pow : roundEven (v / 2 ^ quantum v) ≤ 2 ^ 53 := by
  have hq := two_pow_pos (quantum v)
  have hlt : v / 2 ^ quantum v < 2 ^ 53 := by
    rw [div_lt_iff₀ hq]
    calc v < 2 ^ (Int.log 2 v + 1) := Int.lt_zpow_succ_log_self (by norm_num) v
      _ = 2 ^ 53 * 2 ^ (Int.log 2 v - 52) := by
        rw [← zpow_natCast, ← zpow_add₀ two_ne_zero]; congr 1; push_cast; ring
      _ ≤ 2 ^ 53 * 2 ^ quantum v :=
        mul_le_mul_of_nonneg_left (zpow_le_zpow_right₀ (by norm_num) (le_max_left _ _))
          (by positivity)
  have hfloor : ⌊v / 2 ^ quantum v⌋ < 2 ^ 53 := by
    rw [Int.floor_lt]; exact_mod_cast hlt
  have := (roundEven_bounds (v / 2 ^ quantum v)).2
  omega

/-- Above the subnormals a rounded magnitude keeps its 53rd bit. -/
theorem two_pow_le_roundEven (hv : 0 < v) (hq : -1074 < quantum v) :
    2 ^ 52 ≤ roundEven (v / 2 ^ quantum v) := by
  have hq' : quantum v = Int.log 2 v - 52 := by unfold quantum at hq ⊢; omega
  apply le_roundEven_of_le
  rw [le_div_iff₀ (two_pow_pos _), hq']
  calc ((2 ^ 52 : ℤ) : ℝ) * 2 ^ (Int.log 2 v - 52) = 2 ^ Int.log 2 v := by
        rw [Int.cast_pow, Int.cast_ofNat, ← zpow_natCast, ← zpow_add₀ two_ne_zero]
        congr 1
        push_cast
        ring
    _ ≤ v := Int.zpow_log_le_self (by norm_num) hv

/-- The carry shift after rounding: a mantissa below `2^53` stays where it is, and `2^53`
moves one place up, exactly. -/
theorem shiftToTarget_rounded {r : ℕ} {q : ℤ} (hr : r ≤ 2 ^ 53) (hq : -1074 ≤ q) :
    let f := shiftToTargetExponent Format.binary64 r q .exact
    (f.1.mantissa : ℝ) * 2 ^ f.2 = r * 2 ^ q ∧
      (r < 2 ^ 53 → f.1.mantissa = r ∧ f.2 = q) ∧
      (r = 2 ^ 53 → f.1.mantissa = 2 ^ 52 ∧ f.2 = q + 1) := by
  rcases hr.lt_or_eq with hlt | rfl
  · have hlog : r.log2 < 53 := by
      rcases Nat.eq_zero_or_pos r with rfl | hpos
      · simp
      · exact (Nat.log2_lt (by omega)).2 hlt
    have hz : (Format.binary64.targetExponent (totalExponent r q) - q).toNat = 0 := by
      simp only [Format.targetExponent, totalExponent, Format.mantissaBits, Format.minExponent]
      norm_num
      omega
    simp only [shiftToTargetExponent, shiftToExponent, hz]
    refine ⟨?_, fun _ => ⟨rfl, by simp⟩, fun h => absurd h (by omega)⟩
    simp [HShiftRight.hShiftRight, Nat.repeat, ExtendedMantissa.ofMantissaAndAccuracy]
  · have ht : Format.binary64.targetExponent (totalExponent (2 ^ 53) q) = q + 1 := by
      simp only [Format.targetExponent, totalExponent, Nat.log2_two_pow, Format.mantissaBits,
        Format.minExponent]
      norm_num
      omega
    simp only [shiftToTargetExponent, ht, shiftToExponent, show (q + 1 - q).toNat = 1 by omega]
    refine ⟨?_, fun h => absurd h (by omega), fun _ => ⟨rfl, by push_cast; ring⟩⟩
    change (((2 ^ 53 : ℕ) / 2 : ℕ) : ℝ) * 2 ^ (q + ((1 : ℕ) : ℤ)) = _
    rw [zpow_add₀ two_ne_zero]
    norm_num
    ring

theorem roundWithAccuracy_eq (s : Sign) (m : ℕ) (e : ℤ) (acc : Accuracy) :
    roundWithAccuracy Format.binary64 s m e acc =
      let g := shiftToTargetExponent Format.binary64
        (shiftToTargetExponent Format.binary64 m e acc).1.roundedMantissa
        (shiftToTargetExponent Format.binary64 m e acc).2 .exact
      if h : g.1.mantissa = 0 then .zero s else .finite s g.1.mantissa g.2 (Nat.pos_of_ne_zero h) :=
  rfl

@[simp] theorem ofMantissaAndAccuracy_mantissa (m : ℕ) (acc : Accuracy) :
    (ExtendedMantissa.ofMantissaAndAccuracy m acc).mantissa = m := by
  rcases acc with _ | _ | _ | _ <;> rfl

/-- Whatever the round and sticky bits, the place the rounding code aims for is the quantum of
the value described, once the described exponent is no coarser than that quantum. -/
theorem target_eq_quantum_of_represents (hv : 0 < v)
    (hrep : Represents (.ofMantissaAndAccuracy m acc) (v / 2 ^ e)) (he : e ≤ quantum v) :
    Format.binary64.targetExponent (totalExponent m e) = quantum v := by
  have hfloor : ⌊v / 2 ^ e⌋ = m := by simpa using hrep.floor
  rcases Nat.eq_zero_or_pos m with rfl | hm
  · -- nothing of `v` reaches the described place, so its quantum is the least exponent
    have hlt : v < 2 ^ e := by
      have := Int.lt_floor_add_one (v / 2 ^ e)
      rw [hfloor, div_lt_iff₀ (two_pow_pos e)] at this
      simpa using this
    have hlog : Int.log 2 v < e :=
      (Int.lt_zpow_iff_log_lt (b := 2) (by norm_num) hv).1 (by exact_mod_cast hlt)
    have hsmall : e ≤ -1074 := by unfold quantum at he; omega
    exact target_eq_quantum_small hv (by omega) hlt
  · exact target_eq_quantum hm hfloor

/-- The core of every operation: a real described at an exponent no coarser than its own last
place rounds to the nearest double. -/
theorem rounds_roundWithAccuracy (s : Sign) (hv : 0 < v)
    (hrep : Represents (.ofMantissaAndAccuracy m acc) (v / 2 ^ e)) (he : e ≤ quantum v) :
    Rounds s v (roundWithAccuracy Format.binary64 s m e acc) := by
  have ht := target_eq_quantum_of_represents hv hrep he
  -- the first shift lands on the last place kept, with the bits still describing `v`
  have hshift : (shiftToTargetExponent Format.binary64 m e acc).2 = quantum v := by
    simp only [shiftToTargetExponent, shiftToExponent, ht]
    omega
  have hrep' : Represents (shiftToTargetExponent Format.binary64 m e acc).1
      (v / 2 ^ quantum v) := by
    have h := hrep.shiftRight (quantum v - e).toNat
    rw [div_div, ← zpow_natCast, ← zpow_add₀ two_ne_zero,
      show e + ((quantum v - e).toNat : ℤ) = quantum v by omega] at h
    simpa only [shiftToTargetExponent, shiftToExponent, ht] using h
  have hround := hrep'.roundedMantissa
  rw [roundWithAccuracy_eq, hshift]
  generalize (shiftToTargetExponent Format.binary64 m e acc).1.roundedMantissa = R at hround ⊢
  have hRle : R ≤ 2 ^ 53 := by have := roundEven_le_two_pow (v := v); omega
  have hqle : -1074 ≤ quantum v := le_max_right _ _
  have hmag : nearestMag v = R * 2 ^ quantum v := by
    rw [nearestMag, ← hround]
    push_cast
    rfl
  obtain ⟨hval, hsmall, hcarry⟩ := shiftToTarget_rounded hRle hqle
  -- the second shift only undoes a carry into a 54th bit
  dsimp only
  split
  · next hz =>
    refine ⟨rfl, ?_⟩
    rw [hmag, ← hval, hz]
    simp
  · next hz =>
    refine ⟨rfl, ?_, by rw [hval, hmag]⟩
    rcases hRle.lt_or_eq with hlt | heq
    · -- no carry: the rounded mantissa at the last place kept
      obtain ⟨hm, he'⟩ := hsmall hlt
      rw [hm, he']
      refine ⟨hlt, hqle, ?_⟩
      rcases hqle.lt_or_eq with hq | hq
      · left
        have := two_pow_le_roundEven hv hq
        omega
      · exact Or.inr hq.symm
    · obtain ⟨hm, he'⟩ := hcarry heq
      rw [hm, he']
      exact ⟨by norm_num, by omega, Or.inl le_rfl⟩

end RoundWithAccuracy

/-! ## Packing a rounded result -/

/-- `u` is a result as a double: once packed it is not NaN, and it is worth `x` rounded to the
nearest double, or the infinity of the sign of `x` past the largest double. -/
def PacksTo (u : UnpackedFloat) (x : ℝ) : Prop :=
  (Float.Model.pack u).unpack ≠ .notANumber ∧ extValue (Float.Model.pack u).unpack = nearestExt x

section Packing

variable {s : Sign} {v : ℝ}

theorem abs_nearest_signed (s : Sign) (hv : 0 ≤ v) : |nearest (signed s v)| = nearestMag v := by
  rw [nearest_signed s hv]
  cases s <;> simp [abs_of_nonneg (nearestMag_nonneg hv)]

theorem extValue_eq_value {u : UnpackedFloat} (hf : u.isFinite = true) :
    extValue u = value u := by
  cases u <;> simp_all [UnpackedFloat.isFinite]

theorem packsTo_zero (s : Sign) : PacksTo (.zero s) 0 := by
  refine ⟨?_, ?_⟩ <;> rw [unpack_pack_zero]
  · intro h; cases h
  · simp

/-- A finite double is its own result. -/
theorem packsTo_value {u : UnpackedFloat} (h : Holds u) (hf : u.isFinite = true) :
    PacksTo u (value u) := by
  refine ⟨?_, ?_⟩ <;> rw [unpack_pack_of_holds h]
  · intro hu; subst hu; cases hf
  · rw [nearestExt_value h, extValue_eq_value hf]

/-- A rounded magnitude packs to the nearest double of its sign, or to the infinity of its sign
once it passes the largest double. -/
theorem packsTo_of_rounds {u : UnpackedFloat} (hv : 0 < v) (h : Rounds s v u) :
    PacksTo u (signed s v) := by
  have habs := abs_nearest_signed s hv.le
  cases u with
  | zero s' =>
    obtain ⟨hs, h0⟩ := h
    subst hs
    refine ⟨?_, ?_⟩ <;> rw [unpack_pack_zero]
    · intro h; cases h
    rw [extValue_zero, nearestExt, if_pos (by rw [habs, h0]; positivity),
      nearest_signed s' hv.le, h0]
    cases s' <;> simp
  | finite s' m e hm =>
    obtain ⟨hs, hc, hval⟩ := h
    subst hs
    by_cases he : e ≤ 971
    · refine ⟨?_, ?_⟩ <;> rw [unpack_pack_finite hc he]
      · intro h; cases h
      rw [extValue_finite, nearestExt, if_pos (by rw [habs, ← hval]; exact hc.lt_overflow he),
        nearest_signed s' hv.le, hval]
    · -- past the largest exponent the double is the infinity of the sign
      refine ⟨?_, ?_⟩ <;> rw [unpack_pack_overflow (by omega)]
      · intro h; cases h
      rw [nearestExt, if_neg (by rw [habs, ← hval, not_lt]; exact hc.overflow_le (by omega))]
      cases s'
      · rw [if_neg (not_lt.2 (by simp only [signed_negative]; linarith))]
        rfl
      · rw [signed_positive, if_pos hv]
        rfl
  | infinity _ => exact h.elim
  | notANumber => exact h.elim

end Packing

/-! ## Rounding a mantissa at any exponent -/

section Round

theorem decreaseExponent_value (m : ℕ) (e t : ℤ) :
    ((decreaseExponent m e t).1 : ℝ) * 2 ^ (decreaseExponent m e t).2 = m * 2 ^ e := by
  simp only [decreaseExponent, Nat.shiftLeft_eq, Nat.cast_mul, Nat.cast_pow, Nat.cast_ofNat]
  rw [← zpow_natCast, mul_assoc, ← zpow_add₀ two_ne_zero]
  congr 2
  omega

/-- Lowering the exponent of a signed mantissa to `t ≤ e` keeps its value. -/
theorem apply_decreaseExponent (s : Sign) (m : ℕ) {e t : ℤ} (ht : t ≤ e) :
    ((s.apply (decreaseExponent m e t).1 : ℤ) : ℝ) * 2 ^ t = signed s (m * 2 ^ e) := by
  have hd := decreaseExponent_value m e t
  have h2 : (decreaseExponent m e t).2 = t := by simp only [decreaseExponent]; omega
  rw [h2] at hd
  cases s
  · simp only [Sign.apply, Int.cast_neg, Int.cast_natCast, neg_mul, hd, signed_negative]
  · simp only [Sign.apply, Int.cast_natCast, hd, signed_positive]

theorem round_eq (s : Sign) (m : ℕ) (e : ℤ) :
    round Format.binary64 s m e =
      let t := Format.binary64.targetExponent (totalExponent m e)
      roundWithAccuracy Format.binary64 s (decreaseExponent m e t).1 (decreaseExponent m e t).2
        .exact :=
  rfl

/-- Rounding a mantissa and exponent, as `+` and `-` do with the sum of the aligned mantissas,
gives the nearest double to their value, whatever the exponent. -/
theorem rounds_round (s : Sign) {m : ℕ} (hm : 0 < m) (e : ℤ) :
    Rounds s (m * 2 ^ e) (round Format.binary64 s m e) := by
  have hv := magnitude_pos hm e
  have ht : Format.binary64.targetExponent (totalExponent m e) = quantum (m * 2 ^ e) :=
    target_eq_quantum hm (by rw [mul_div_cancel_right₀ _ (two_pow_pos e).ne']; simp)
  have hd := decreaseExponent_value m e (quantum (m * 2 ^ e))
  rw [round_eq]
  dsimp only
  rw [ht]
  apply rounds_roundWithAccuracy s hv
  · -- lowering the exponent shifts the mantissa left and keeps the value
    show _ / _ = _
    rw [div_eq_iff (two_pow_pos _).ne']
    exact hd.symm
  · simp only [decreaseExponent]
    omega

/-- Normalizing a signed mantissa packs to the nearest double to its value. -/
theorem packsTo_normalize (M E : ℤ) (z : Sign) :
    PacksTo (normalize Format.binary64 M E z) (M * 2 ^ E) := by
  unfold UnpackedFloat.normalize
  rcases lt_trichotomy M 0 with hM | rfl | hM
  · rw [show compare M 0 = .lt from Int.compare_eq_lt.mpr hM]
    have hpos : 0 < (-M).toNat := by omega
    have hcast : (((-M).toNat : ℕ) : ℝ) = -M := by
      exact_mod_cast Int.toNat_of_nonneg (by omega : 0 ≤ -M)
    have hval : (M : ℝ) * 2 ^ E = signed .negative ((-M).toNat * 2 ^ E) := by
      rw [signed_negative, hcast]
      ring
    rw [hval]
    exact packsTo_of_rounds (magnitude_pos hpos E) (rounds_round .negative hpos E)
  · simpa using packsTo_zero z
  · rw [show compare M 0 = .gt from Int.compare_eq_gt.mpr hM]
    have hpos : 0 < M.toNat := by omega
    have hval : (M : ℝ) * 2 ^ E = signed .positive (M.toNat * 2 ^ E) := by
      rw [signed_positive]
      exact_mod_cast congrArg (fun k : ℤ => (k : ℝ) * 2 ^ E) (Int.toNat_of_nonneg hM.le).symm
    rw [hval]
    exact packsTo_of_rounds (magnitude_pos hpos E) (rounds_round .positive hpos E)

end Round

/-! ## The four operations on finite operands -/

section Finite

variable {a b : UnpackedFloat}

theorem signed_mul (s₁ s₂ : Sign) (x y : ℝ) :
    signed (s₁ * s₂) (x * y) = signed s₁ x * signed s₂ y := by
  cases s₁ <;> cases s₂
  · exact (neg_mul_neg x y).symm
  · exact (neg_mul x y).symm
  · exact (mul_neg x y).symm
  · rfl

theorem signed_div (s₁ s₂ : Sign) (x y : ℝ) :
    signed (s₁ / s₂) (x / y) = signed s₁ x / signed s₂ y := by
  cases s₁ <;> cases s₂
  · exact (neg_div_neg_eq x y).symm
  · exact (neg_div y x).symm
  · exact (div_neg x).symm
  · rfl

theorem add_finite (s₁ s₂ : Sign) (m₁ m₂ : ℕ) (e₁ e₂ : ℤ) (h₁ : 0 < m₁) (h₂ : 0 < m₂) :
    add Format.binary64 (.finite s₁ m₁ e₁ h₁) (.finite s₂ m₂ e₂ h₂) =
      normalize Format.binary64
        (s₁.apply (decreaseExponent m₁ e₁ (min e₁ e₂)).1 +
          s₂.apply (decreaseExponent m₂ e₂ (min e₁ e₂)).1) (min e₁ e₂) .positive :=
  rfl

theorem sub_finite (s₁ s₂ : Sign) (m₁ m₂ : ℕ) (e₁ e₂ : ℤ) (h₁ : 0 < m₁) (h₂ : 0 < m₂) :
    sub Format.binary64 (.finite s₁ m₁ e₁ h₁) (.finite s₂ m₂ e₂ h₂) =
      normalize Format.binary64
        (s₁.apply (decreaseExponent m₁ e₁ (min e₁ e₂)).1 -
          s₂.apply (decreaseExponent m₂ e₂ (min e₁ e₂)).1) (min e₁ e₂) .positive :=
  rfl

/-- The sum of two finite doubles is the nearest double to the exact sum. -/
theorem packsTo_add (ha : Holds a) (hb : Holds b) (hfa : a.isFinite = true)
    (hfb : b.isFinite = true) : PacksTo (add Format.binary64 a b) (value a + value b) := by
  cases a with
  | zero s₁ =>
    cases b with
    | zero s₂ =>
      show PacksTo (if s₁ == s₂ then .zero s₁ else .zero .positive) (0 + 0)
      rw [add_zero]
      split <;> exact packsTo_zero _
    | finite s₂ m₂ e₂ h₂ =>
      rw [value_zero, zero_add]
      exact packsTo_value hb hfb
    | _ => cases hfb
  | finite s₁ m₁ e₁ h₁ =>
    cases b with
    | zero s₂ =>
      rw [value_zero, add_zero]
      exact packsTo_value ha hfa
    | finite s₂ m₂ e₂ h₂ =>
      -- both mantissas are aligned at the smaller exponent, where their sum is exact
      rw [add_finite, value_finite, value_finite,
        ← apply_decreaseExponent s₁ m₁ (min_le_left e₁ e₂),
        ← apply_decreaseExponent s₂ m₂ (min_le_right e₁ e₂), ← add_mul]
      exact_mod_cast packsTo_normalize _ _ _
    | _ => cases hfb
  | _ => cases hfa

/-- The difference of two finite doubles is the nearest double to the exact difference. -/
theorem packsTo_sub (ha : Holds a) (hb : Holds b) (hfa : a.isFinite = true)
    (hfb : b.isFinite = true) : PacksTo (sub Format.binary64 a b) (value a - value b) := by
  cases a with
  | zero s₁ =>
    cases b with
    | zero s₂ =>
      show PacksTo (if s₁ == -s₂ then .zero s₁ else .zero .positive) (0 - 0)
      rw [sub_zero]
      split <;> exact packsTo_zero _
    | finite s₂ m₂ e₂ h₂ =>
      -- subtracting from zero flips the sign of the subtrahend
      have h := packsTo_value (u := .finite (-s₂) m₂ e₂ h₂) hb rfl
      rw [value_finite, signed_neg] at h
      rw [value_zero, zero_sub, value_finite]
      exact h
    | _ => cases hfb
  | finite s₁ m₁ e₁ h₁ =>
    cases b with
    | zero s₂ =>
      rw [value_zero, sub_zero]
      exact packsTo_value ha hfa
    | finite s₂ m₂ e₂ h₂ =>
      rw [sub_finite, value_finite, value_finite,
        ← apply_decreaseExponent s₁ m₁ (min_le_left e₁ e₂),
        ← apply_decreaseExponent s₂ m₂ (min_le_right e₁ e₂), ← sub_mul]
      exact_mod_cast packsTo_normalize _ _ _
    | _ => cases hfb
  | _ => cases hfa

/-- The product of two canonical mantissas sits at an exponent no coarser than its quantum:
below `2^52` it is a product of two subnormals, far below the least exponent. -/
theorem exponent_le_quantum_mul {m₁ m₂ : ℕ} {e₁ e₂ : ℤ} (hc₁ : Canonical m₁ e₁)
    (hc₂ : Canonical m₂ e₂) (h₁ : 0 < m₁) (h₂ : 0 < m₂) :
    e₁ + e₂ ≤ quantum ((m₁ * m₂ : ℕ) * 2 ^ (e₁ + e₂)) := by
  unfold quantum
  rw [log_two_mantissa (Nat.mul_pos h₁ h₂)]
  by_cases hn : 2 ^ 52 ≤ m₁ * m₂
  · have := (Nat.le_log2 (Nat.mul_pos h₁ h₂).ne').2 hn
    omega
  · have hm₁ : ¬ 2 ^ 52 ≤ m₁ := fun h => hn (h.trans (Nat.le_mul_of_pos_right _ h₂))
    have hm₂ : ¬ 2 ^ 52 ≤ m₂ := fun h => hn (h.trans (Nat.le_mul_of_pos_left _ h₁))
    have := hc₁.normal.resolve_left hm₁
    have := hc₂.normal.resolve_left hm₂
    omega

/-- The product of two finite doubles is the nearest double to the exact product. -/
theorem packsTo_mul (ha : Holds a) (hb : Holds b) (hfa : a.isFinite = true)
    (hfb : b.isFinite = true) : PacksTo (mul Format.binary64 a b) (value a * value b) := by
  cases a with
  | zero s₁ =>
    rw [value_zero, zero_mul]
    cases b with
    | zero s₂ | finite s₂ _ _ _ => exact packsTo_zero (s₁ * s₂)
    | _ => cases hfb
  | finite s₁ m₁ e₁ h₁ =>
    cases b with
    | zero s₂ =>
      rw [value_zero, mul_zero]
      exact packsTo_zero (s₁ * s₂)
    | finite s₂ m₂ e₂ h₂ =>
      have hm := Nat.mul_pos h₁ h₂
      have hv := magnitude_pos hm (e₁ + e₂)
      have hrep : Represents (.ofMantissaAndAccuracy (m₁ * m₂) .exact)
          ((m₁ * m₂ : ℕ) * 2 ^ (e₁ + e₂) / 2 ^ (e₁ + e₂)) :=
        mul_div_cancel_right₀ _ (two_pow_pos _).ne'
      have h := packsTo_of_rounds hv (rounds_roundWithAccuracy (s₁ * s₂) hv hrep
        (exponent_le_quantum_mul ha.1 hb.1 h₁ h₂))
      have hval : signed s₁ (m₁ * 2 ^ e₁) * signed s₂ (m₂ * 2 ^ e₂) =
          signed (s₁ * s₂) ((m₁ * m₂ : ℕ) * 2 ^ (e₁ + e₂)) := by
        rw [← signed_mul]
        congr 1
        push_cast
        rw [zpow_add₀ two_ne_zero]
        ring
      rw [value_finite, value_finite, hval]
      exact h
    | _ => cases hfb
  | _ => cases hfa

theorem div_finite (s₁ s₂ : Sign) (m₁ m₂ : ℕ) (e₁ e₂ : ℤ) (h₁ : 0 < m₁) (h₂ : 0 < m₂) :
    div Format.binary64 (.finite s₁ m₁ e₁ h₁) (.finite s₂ m₂ e₂ h₂) =
      let d := divCore Format.binary64 m₁ e₁ m₂ e₂
      roundWithAccuracy Format.binary64 (s₁ / s₂) d.1 d.2.1 d.2.2 :=
  rfl

section DivCore

variable {m₁ m₂ : ℕ} {e₁ e₂ : ℤ}

/-- The quotient code shifts the dividend left so that the integer quotient has the bits the
result needs; its mantissa, remainder and exponent describe the exact quotient. -/
theorem represents_divCore (h₂ : 0 < m₂) :
    let d := divCore Format.binary64 m₁ e₁ m₂ e₂
    Represents (.ofMantissaAndAccuracy d.1 d.2.2) (m₁ * 2 ^ e₁ / (m₂ * 2 ^ e₂) / 2 ^ d.2.1) := by
  simp only [divCore]
  generalize hT : min (e₁ - e₂) _ = T
  have hTle : T ≤ e₁ - e₂ := hT ▸ min_le_left _ _
  have hk : (((e₁ - e₂ - T).toNat : ℕ) : ℤ) = e₁ - e₂ - T := Int.toNat_of_nonneg (by omega)
  set M := m₁ <<< (e₁ - e₂ - T).toNat with hMdef
  have hM : (M : ℝ) = m₁ * 2 ^ (e₁ - e₂ - T) := by
    rw [hMdef, Nat.shiftLeft_eq, Nat.cast_mul, Nat.cast_pow, Nat.cast_ofNat, ← zpow_natCast, hk]
  have hm₂ : (0 : ℝ) < m₂ := by exact_mod_cast h₂
  have hsplit : ((M / m₂ : ℕ) : ℝ) + ((M % m₂ : ℕ) : ℝ) / m₂ = M / m₂ := by
    rw [eq_div_iff hm₂.ne', add_mul, div_mul_cancel₀ _ hm₂.ne']
    exact_mod_cast Nat.div_add_mod' M m₂
  have hv : (m₁ : ℝ) * 2 ^ e₁ / (m₂ * 2 ^ e₂) / 2 ^ T = M / m₂ := by
    rw [hM, zpow_sub₀ two_ne_zero, zpow_sub₀ two_ne_zero]
    field_simp
  rw [hv, ← hsplit]
  exact represents_fraction h₂ (Nat.mod_lt _ h₂)

/-- The exponent the quotient code settles on is no coarser than the quantum of the exact
quotient, whose leading bit is at most one place below the difference of the operands'. -/
theorem divCore_exponent_le (h₁ : 0 < m₁) (h₂ : 0 < m₂) :
    (divCore Format.binary64 m₁ e₁ m₂ e₂).2.1 ≤ quantum (m₁ * 2 ^ e₁ / (m₂ * 2 ^ e₂)) := by
  have hv : (0 : ℝ) < m₁ * 2 ^ e₁ / (m₂ * 2 ^ e₂) :=
    div_pos (magnitude_pos h₁ e₁) (magnitude_pos h₂ e₂)
  have hlow : (2 : ℝ) ^ (totalExponent m₁ e₁ - totalExponent m₂ e₂ - 1) ≤
      m₁ * 2 ^ e₁ / (m₂ * 2 ^ e₂) :=
    calc (2 : ℝ) ^ (totalExponent m₁ e₁ - totalExponent m₂ e₂ - 1)
        = 2 ^ ((m₁.log2 : ℤ) + e₁) / 2 ^ ((m₂.log2 : ℤ) + e₂ + 1) := by
          rw [← zpow_sub₀ two_ne_zero]
          congr 1
          simp only [totalExponent]
          ring
      _ ≤ m₁ * 2 ^ e₁ / (m₂ * 2 ^ e₂) :=
          div_le_div₀ (magnitude_pos h₁ e₁).le (two_pow_log2_le h₁ e₁) (magnitude_pos h₂ e₂)
            (lt_two_pow_log2 m₂ e₂).le
  have hlog := (Int.zpow_le_iff_le_log (b := 2) (by norm_num) hv).1 (by exact_mod_cast hlow)
  simp only [divCore, quantum, Format.targetExponent, Format.mantissaBits, Format.minExponent]
  omega

end DivCore

/-- The quotient of two finite doubles, the divisor not zero, is the nearest double to the
exact quotient. -/
theorem packsTo_div (ha : Holds a) (hb : Holds b) (hfa : a.isFinite = true)
    (hfb : b.isFinite = true) (hb0 : value b ≠ 0) :
    PacksTo (div Format.binary64 a b) (value a / value b) := by
  cases b with
  | zero s₂ => exact absurd (value_zero s₂) hb0
  | finite s₂ m₂ e₂ h₂ =>
    cases a with
    | zero s₁ =>
      rw [value_zero, zero_div]
      exact packsTo_zero (s₁ / s₂)
    | finite s₁ m₁ e₁ h₁ =>
      have hv : (0 : ℝ) < m₁ * 2 ^ e₁ / (m₂ * 2 ^ e₂) :=
        div_pos (magnitude_pos h₁ e₁) (magnitude_pos h₂ e₂)
      have h := packsTo_of_rounds hv (rounds_roundWithAccuracy (s₁ / s₂) hv
        (represents_divCore h₂) (divCore_exponent_le h₁ h₂))
      rw [value_finite, value_finite, ← signed_div, div_finite]
      exact h
    | _ => cases hfa
  | _ => cases hfb

end Finite

end Annealing.Binary64
