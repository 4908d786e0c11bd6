import Mathlib
import Annealing.Proofs.FloatOrder

/-!
# What a double is worth

A double unpacks to NaN, a signed infinity, a signed zero, or a sign with a mantissa `m` and an
exponent `e` standing for `± m · 2^e`. Binary64 keeps one such pair per value: the mantissa has
at most 53 bits, and exactly 53 unless the exponent is the least one, `-1074`, where the
subnormals live. Such a pair is `Canonical`, and the exponent of a double is at most `971`, the
largest its eleven exponent bits hold (`Holds`).

`value` reads an unpacked double as a real number and `extValue` as an extended real, with the
infinities at `⊥` and `⊤`. On what a double holds, the IEEE order is the order of these
values (`le_iff_extValue`): two positive canonical pairs compare by exponent first and mantissa
second exactly as their values compare, because one more in the exponent outweighs any
mantissa of at most 53 bits. Packing a canonical pair into 64 bits and unpacking it again gives
it back, unless its exponent is too large, and then the double is the infinity of its sign.
-/

namespace Annealing.Binary64

open Float.Model UnpackedFloat

/-- A mantissa and exponent as binary64 keeps them: fewer than `2^53`, an exponent of at least
`-1074`, and a full 53-bit mantissa except at that least exponent. -/
structure Canonical (m : ℕ) (e : ℤ) : Prop where
  lt_two_pow : m < 2 ^ 53
  le_exponent : -1074 ≤ e
  normal : 2 ^ 52 ≤ m ∨ e = -1074

/-- What a double can hold: a canonical finite pair whose exponent fits, or any value that is
not finite. -/
def Holds : UnpackedFloat → Prop
  | .finite _ m e _ => Canonical m e ∧ e ≤ 971
  | _ => True

/-- The numeral `2` of the reals as one closed proof, which every definition of the radix below
refers to instead of carrying a proof of its own. -/
instance atLeastTwo_two : Nat.AtLeastTwo 2 := ⟨le_rfl⟩

/-- A real number carrying a sign. -/
noncomputable def signed : Sign → ℝ → ℝ
  | .positive, r => r
  | .negative, r => -r

/-- The real number an unpacked double stands for; the infinities and NaN read as zero. -/
noncomputable def value : UnpackedFloat → ℝ
  | .finite s m e _ => signed s (m * 2 ^ e)
  | _ => 0

/-- The extended real an unpacked double stands for, the infinities at `⊥` and `⊤`; NaN reads
as zero. -/
noncomputable def extValue : UnpackedFloat → EReal
  | .infinity .negative => ⊥
  | .infinity .positive => ⊤
  | .notANumber => 0
  | .zero _ => 0
  | .finite s m e _ => (signed s (m * 2 ^ e) : ℝ)

@[simp] theorem signed_positive (r : ℝ) : signed .positive r = r := rfl

@[simp] theorem signed_negative (r : ℝ) : signed .negative r = -r := rfl

@[simp] theorem value_zero (s : Sign) : value (.zero s) = 0 := rfl

@[simp] theorem value_finite (s : Sign) (m : ℕ) (e : ℤ) (h : 0 < m) :
    value (.finite s m e h) = signed s (m * 2 ^ e) := rfl

@[simp] theorem extValue_zero (s : Sign) : extValue (.zero s) = 0 := rfl

@[simp] theorem extValue_finite (s : Sign) (m : ℕ) (e : ℤ) (h : 0 < m) :
    extValue (.finite s m e h) = (signed s (m * 2 ^ e) : ℝ) := rfl

@[simp] theorem extValue_infinity_positive : extValue (.infinity .positive) = ⊤ := rfl

@[simp] theorem extValue_infinity_negative : extValue (.infinity .negative) = ⊥ := rfl

theorem signed_neg (s : Sign) (r : ℝ) : signed (-s) r = -signed s r := by
  cases s
  · show r = -(-r)
    rw [neg_neg]
  · rfl

/-! ## Canonical pairs -/

section Canonical

variable {m m₁ m₂ : ℕ} {e e₁ e₂ : ℤ}

theorem two_pow_pos (e : ℤ) : (0 : ℝ) < 2 ^ e := zpow_pos (by norm_num) e

theorem magnitude_pos (hm : 0 < m) (e : ℤ) : (0 : ℝ) < m * 2 ^ e :=
  mul_pos (by exact_mod_cast hm) (two_pow_pos e)

/-- A canonical value lies below the next power of two past its 53 bits. -/
theorem Canonical.lt_two_pow_mul (hc : Canonical m e) : (m : ℝ) * 2 ^ e < 2 ^ 53 * 2 ^ e :=
  mul_lt_mul_of_pos_right (by exact_mod_cast hc.lt_two_pow) (two_pow_pos e)

/-- A canonical value above the subnormals has its leading bit 52 places up. -/
theorem Canonical.two_pow_mul_le (hc : Canonical m e) (he : -1074 < e) :
    (2 : ℝ) ^ 52 * 2 ^ e ≤ m * 2 ^ e := by
  have hn : 2 ^ 52 ≤ m := hc.normal.resolve_right (by omega)
  exact mul_le_mul_of_nonneg_right (by exact_mod_cast hn) (two_pow_pos e).le

/-- Between canonical pairs a larger exponent means a larger value. -/
theorem Canonical.lt_of_exponent_lt (h₁ : Canonical m₁ e₁) (h₂ : Canonical m₂ e₂)
    (he : e₁ < e₂) : (m₁ : ℝ) * 2 ^ e₁ < m₂ * 2 ^ e₂ :=
  calc (m₁ : ℝ) * 2 ^ e₁ < 2 ^ 53 * 2 ^ e₁ := h₁.lt_two_pow_mul
    _ = 2 ^ 52 * 2 ^ (e₁ + 1) := by rw [zpow_add_one₀ two_ne_zero]; ring
    _ ≤ 2 ^ 52 * 2 ^ e₂ :=
      mul_le_mul_of_nonneg_left (zpow_le_zpow_right₀ (by norm_num) (by omega)) (by positivity)
    _ ≤ m₂ * 2 ^ e₂ := h₂.two_pow_mul_le (by have := h₁.le_exponent; omega)

/-- Canonical pairs compare by exponent, then mantissa, as their values do. -/
theorem Canonical.lt_of_lex (h₁ : Canonical m₁ e₁) (h₂ : Canonical m₂ e₂)
    (h : e₁ < e₂ ∨ e₁ = e₂ ∧ m₁ < m₂) : (m₁ : ℝ) * 2 ^ e₁ < m₂ * 2 ^ e₂ := by
  rcases h with he | ⟨rfl, hm⟩
  · exact h₁.lt_of_exponent_lt h₂ he
  · exact mul_lt_mul_of_pos_right (by exact_mod_cast hm) (two_pow_pos e₁)

/-- A canonical value whose exponent fits lies below `2^1024`, past the largest double. -/
theorem Canonical.lt_overflow (hc : Canonical m e) (he : e ≤ 971) :
    (m : ℝ) * 2 ^ e < 2 ^ 1024 :=
  calc (m : ℝ) * 2 ^ e < 2 ^ 53 * 2 ^ e := hc.lt_two_pow_mul
    _ ≤ 2 ^ 53 * 2 ^ (971 : ℤ) :=
      mul_le_mul_of_nonneg_left (zpow_le_zpow_right₀ (by norm_num) he) (by positivity)
    _ = 2 ^ 1024 := by rw [zpow_ofNat, ← pow_add]

/-- A canonical value whose exponent does not fit reaches `2^1024`. -/
theorem Canonical.overflow_le (hc : Canonical m e) (he : 971 < e) :
    (2 : ℝ) ^ 1024 ≤ m * 2 ^ e :=
  calc (2 : ℝ) ^ 1024 = 2 ^ 52 * 2 ^ (972 : ℤ) := by rw [zpow_ofNat, ← pow_add]
    _ ≤ 2 ^ 52 * 2 ^ e :=
      mul_le_mul_of_nonneg_left (zpow_le_zpow_right₀ (by norm_num) (by omega)) (by positivity)
    _ ≤ m * 2 ^ e := hc.two_pow_mul_le (by omega)

end Canonical

/-! ## Unpacking and packing -/

theorem toNat_implicit (b : BitVec 52) : (1#1 ++ b).toNat = 2 ^ 52 + b.toNat := by
  rw [BitVec.toNat_append, ← Nat.shiftLeft_add_eq_or_of_lt b.isLt]
  rfl

section FullMantissa

variable {m : ℕ} (hn : 2 ^ 52 ≤ m) (hlt : m < 2 ^ 53)
include hn hlt

/-- A full mantissa leads with bit 52, which packing leaves implicit. -/
theorem log2_of_full : m.log2 = 52 := (Nat.log2_eq_iff (by omega)).2 ⟨hn, hlt⟩

theorem toNat_implicit_of_full : (1#1 ++ BitVec.ofNat 52 m).toNat = m := by
  rw [toNat_implicit, BitVec.toNat_ofNat]
  omega

end FullMantissa

/-- Every double unpacks to something a double holds. -/
theorem unpack_holds (x : Float.Model) : Holds x.unpack := by
  unfold Float.Model.unpack UnpackedFloat.unpack
  have hmant := (@unpackMantissa Format.binary64 x.toBits.toBitVec).isLt
  have hexp := (@unpackExponent Format.binary64 x.toBits.toBitVec).isLt
  change _ < 2 ^ 52 at hmant
  change _ < 2 ^ 11 at hexp
  simp only
  split
  · split <;> trivial
  · next hinf =>
    have hne : (@unpackExponent Format.binary64 x.toBits.toBitVec).toNat ≠ 2047 :=
      fun h => hinf (BitVec.eq_of_toNat_eq h)
    split
    · next hzero =>
      -- a zero exponent field: a zero or a subnormal at the least exponent
      have h0 : (@unpackExponent Format.binary64 x.toBits.toBitVec).toNat = 0 := by
        rw [hzero]; rfl
      split
      · trivial
      · refine ⟨⟨by omega, ?_, Or.inr ?_⟩, ?_⟩ <;> simp [h0, Format.exponentBias]
    · next hzero =>
      -- a normal double: the implicit leading bit makes the mantissa 53 bits long
      have h0 : (@unpackExponent Format.binary64 x.toBits.toBitVec).toNat ≠ 0 :=
        fun h => hzero (BitVec.eq_of_toNat_eq h)
      show Canonical _ _ ∧ _
      rw [toNat_implicit]
      refine ⟨⟨by omega, ?_, Or.inl (by omega)⟩, ?_⟩ <;> simp [Format.exponentBias] <;> omega

theorem unpackSign_packComponents (s : Sign) (e : BitVec 11) (m : BitVec 52) :
    Sign.ofBitVec (@unpackSign Format.binary64 (packComponents Format.binary64 s e m)) =
      s := by
  simp only [unpackSign, packComponents, BitVec.extractLsb]
  rw [BitVec.extractLsb'_append_eq_of_le (by omega),
    BitVec.extractLsb'_append_eq_of_le (by omega)]
  cases s <;> rfl

theorem unpack_pack_zero (s : Sign) : (Float.Model.pack (.zero s)).unpack = .zero s := by
  cases s <;> rfl

theorem unpack_pack_infinity (s : Sign) :
    (Float.Model.pack (.infinity s)).unpack = .infinity s := by
  cases s <;> rfl

theorem unpack_pack_notANumber : (Float.Model.pack .notANumber).unpack = .notANumber := rfl

/-- A canonical pair whose exponent fits survives packing. -/
theorem unpack_pack_finite {s : Sign} {m : ℕ} {e : ℤ} {hm : 0 < m} (hc : Canonical m e)
    (he : e ≤ 971) : (Float.Model.pack (.finite s m e hm)).unpack = .finite s m e hm := by
  have hlt := hc.lt_two_pow
  have hle := hc.le_exponent
  have hbias : (e + Format.binary64.exponentBias +
      Format.binary64.mantissaBitsWithoutImplicit).toNat = (e + 1075).toNat := by
    show (e + (2 ^ (11 - 1) - 1 : ℕ) + (52 : ℕ)).toNat = _
    omega
  unfold Float.Model.pack Float.Model.unpack UnpackedFloat.pack
  simp only [hbias]
  rw [if_neg (by omega)]
  rcases hc.normal with hn | rfl
  · -- a normal pair: the leading bit becomes implicit and the exponent field is positive
    rw [if_pos (by simp [log2_of_full hn hlt, Format.mantissaBits])]
    have hne1 : BitVec.ofNat 11 (e + 1075).toNat ≠ -1#11 := by
      intro h
      have := congrArg BitVec.toNat h
      simp [BitVec.toNat_ofNat] at this
      omega
    have hne0 : BitVec.ofNat 11 (e + 1075).toNat ≠ 0#11 := by
      intro h
      have := congrArg BitVec.toNat h
      simp [BitVec.toNat_ofNat] at this
      omega
    simp only [UnpackedFloat.unpack, unpackMantissa_packComponents,
      unpackExponent_packComponents, unpackSign_packComponents, hne1, hne0, if_false]
    have hexp : ((BitVec.ofNat 11 (e + 1075).toNat).toNat : ℤ) = e + 1075 := by
      simp [BitVec.toNat_ofNat]
      omega
    simp only [toNat_implicit_of_full hn hlt, hexp]
    congr 1
    simp [Format.exponentBias]
  · -- a subnormal: the exponent field is zero and the mantissa has no implicit bit
    by_cases hn : 2 ^ 52 ≤ m
    · -- the least normal exponent is also `-1074`
      rw [if_pos (by simp [log2_of_full hn hlt, Format.mantissaBits])]
      have hne : BitVec.ofNat 11 (-1074 + 1075 : ℤ).toNat ≠ -1#11 := by decide
      have hne0 : BitVec.ofNat 11 (-1074 + 1075 : ℤ).toNat ≠ 0#11 := by decide
      simp only [UnpackedFloat.unpack, unpackMantissa_packComponents,
        unpackExponent_packComponents, unpackSign_packComponents, hne, hne0, if_false]
      simp only [toNat_implicit_of_full hn hlt]
      rfl
    · have hlog : m.log2 < 52 := (Nat.log2_lt (by omega)).2 (by omega)
      rw [if_neg (by simp [Format.mantissaBits]; omega)]
      have hmant : (BitVec.ofNat 52 m).toNat = m % 2 ^ 52 := BitVec.toNat_ofNat m 52
      have hmz : BitVec.ofNat 52 m ≠ 0#52 := by
        intro h
        have := congrArg BitVec.toNat h
        rw [hmant] at this
        simp at this
        omega
      simp only [UnpackedFloat.unpack, unpackMantissa_packComponents,
        unpackExponent_packComponents, unpackSign_packComponents, hmz]
      have hm' : (BitVec.ofNat 52 m).toNat = m := by rw [hmant]; omega
      simp only [hm']
      rfl

/-- A canonical pair whose exponent does not fit packs to the infinity of its sign. -/
theorem unpack_pack_overflow {s : Sign} {m : ℕ} {e : ℤ} {hm : 0 < m} (he : 971 < e) :
    (Float.Model.pack (.finite s m e hm)).unpack = .infinity s := by
  have hbias : (e + Format.binary64.exponentBias +
      Format.binary64.mantissaBitsWithoutImplicit).toNat = (e + 1075).toNat := by
    show (e + (2 ^ (11 - 1) - 1 : ℕ) + (52 : ℕ)).toNat = _
    omega
  unfold Float.Model.pack Float.Model.unpack UnpackedFloat.pack
  simp only [hbias]
  rw [if_pos (by simp; omega)]
  simp only [packedInfinity, UnpackedFloat.unpack, unpackMantissa_packComponents,
    unpackExponent_packComponents, unpackSign_packComponents]
  rfl

/-- What a double holds survives packing. -/
theorem unpack_pack_of_holds {u : UnpackedFloat} (h : Holds u) : (Float.Model.pack u).unpack = u := by
  cases u with
  | infinity s => exact unpack_pack_infinity s
  | notANumber => exact unpack_pack_notANumber
  | zero s => exact unpack_pack_zero s
  | finite s m e hm => exact unpack_pack_finite h.1 h.2

/-! ## The IEEE order is the order of values -/

section Order

variable {a b : UnpackedFloat}

/-- Off NaN, a smaller key stands for a smaller value. -/
theorem extValue_lt_of_key_lt (ha : Holds a) (hb : Holds b) (hna : a ≠ .notANumber)
    (hnb : b ≠ .notANumber) (h : Float.unpackedKey a < Float.unpackedKey b) :
    extValue a < extValue b := by
  rcases a with ⟨_ | _⟩ | _ | s | ⟨_ | _, m, e, hm⟩ <;>
  rcases b with ⟨_ | _⟩ | _ | s' | ⟨_ | _, m', e', hm'⟩ <;>
  simp only [ne_eq, not_true_eq_false] at hna hnb <;>
  simp [Float.unpackedKey, Prod.Lex.toLex_lt_toLex] at h <;>
  simp only [extValue, signed, EReal.bot_lt_coe, EReal.coe_lt_top, EReal.coe_lt_coe_iff,
    bot_lt_top, EReal.coe_pos, EReal.coe_neg', neg_lt_zero, neg_lt_neg_iff] <;>
  first
  | exact EReal.bot_lt_zero
  | exact EReal.zero_lt_top
  | exact magnitude_pos hm e
  | exact magnitude_pos hm' e'
  | exact (neg_neg_of_pos (magnitude_pos hm e)).trans (magnitude_pos hm' e')
  | exact ha.1.lt_of_lex hb.1 h
  | exact hb.1.lt_of_lex ha.1 (h.imp_right fun h => ⟨h.1.symm, h.2⟩)

/-- Equal keys stand for equal values: the two zeros share theirs. -/
theorem extValue_eq_of_key_eq (hna : a ≠ .notANumber) (hnb : b ≠ .notANumber)
    (h : Float.unpackedKey a = Float.unpackedKey b) : extValue a = extValue b := by
  rcases a with ⟨_ | _⟩ | _ | s | ⟨_ | _, m, e, hm⟩ <;>
  rcases b with ⟨_ | _⟩ | _ | s' | ⟨_ | _, m', e', hm'⟩ <;>
  simp only [ne_eq, not_true_eq_false] at hna hnb <;>
  simp [Float.unpackedKey] at h <;>
  simp_all [extValue]

theorem le_iff_extValue (ha : Holds a) (hb : Holds b) (hna : a ≠ .notANumber)
    (hnb : b ≠ .notANumber) : a.le b = true ↔ extValue a ≤ extValue b := by
  rw [Float.unpacked_le_iff hna hnb]
  constructor
  · intro h
    rcases h.lt_or_eq with hlt | heq
    · exact (extValue_lt_of_key_lt ha hb hna hnb hlt).le
    · exact (extValue_eq_of_key_eq hna hnb heq).le
  · intro h
    by_contra hlt
    exact absurd h (not_le.2 (extValue_lt_of_key_lt hb ha hnb hna (not_le.1 hlt)))

theorem lt_iff_extValue (ha : Holds a) (hb : Holds b) (hna : a ≠ .notANumber)
    (hnb : b ≠ .notANumber) : a.lt b = true ↔ extValue a < extValue b := by
  rw [Float.unpacked_lt_iff hna hnb]
  constructor
  · exact extValue_lt_of_key_lt ha hb hna hnb
  · intro h
    by_contra hle
    rcases (not_lt.1 hle).lt_or_eq with hlt | heq
    · exact absurd h (not_lt.2 (extValue_lt_of_key_lt hb ha hnb hna hlt).le)
    · exact absurd h (not_lt.2 (extValue_eq_of_key_eq hnb hna heq).le)

end Order

end Annealing.Binary64
