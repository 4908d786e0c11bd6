import Mathlib
import Annealing.Acceptance
import Annealing.Proofs.Binary64.Monotone

/-!
# The Metropolis probability in doubles

`Acceptance.probability current candidate t` is `1` for a candidate no worse than the current
solution, and otherwise `exp ((current - candidate) / t)`, with NaN read as `0`. Every fact
below holds for any exponential with four properties of the C library's `exp` (`ExpLaws`): it
sends NaN to NaN, a nonpositive argument into `[0, 1]` and `-∞` to `0`, and it is monotone. The
arithmetic is that of doubles (`Scalar.floatWith`), so the corner cases are all there: `∞ - ∞`
and `-∞ / ∞` are NaN, a tiny difference over a huge temperature is `-0`.

At a positive temperature the quotient of a worse move is NaN or at most zero, which gives a
probability in `[0, 1]`. The quotient only turns NaN, for energies that are not NaN, when the
difference is `-∞` and the temperature `+∞`; there the probability drops to `0`, which is what
`exp (-∞)` gives at any finite temperature, so monotonicity in the temperature survives it.
-/

namespace Annealing

/-- Doubles with `f` for the exponential: the arithmetic of `Scalar.float`, whatever `exp` is. -/
abbrev Scalar.floatWith (f : Float → Float) : Scalar Float := { Scalar.float with exp := f }

namespace Acceptance

open Binary64

/-- What the acceptance rule needs of an exponential on doubles. -/
structure ExpLaws (f : Float → Float) : Prop where
  nan : ∀ x, x.isNaN = true → (f x).isNaN = true
  mem : ∀ x, x ≤ 0.0 → 0.0 ≤ f x ∧ f x ≤ 1.0
  bot : ∀ x, toEReal x = ⊥ → f x ≤ 0.0
  mono : ∀ x y, x ≤ y → f x ≤ f y

/-- The probability of a move with `f` for the exponential. -/
def probabilityWith (f : Float → Float) (current candidate t : Float) : Float :=
  @probability Float (Scalar.floatWith f) current candidate t

/-- A double, with NaN read as zero. -/
def orZero (p : Float) : Float := if p.isNaN then 0.0 else p

section Laws

variable {f : Float → Float} {current current' candidate candidate' t t' : Float}

theorem probabilityWith_of_le (h : candidate ≤ current) :
    probabilityWith f current candidate t = 1.0 :=
  if_pos h

theorem probabilityWith_of_not_le (h : ¬ candidate ≤ current) :
    probabilityWith f current candidate t = orZero (f ((current - candidate) / t)) :=
  if_neg h

/-! ## The exponential, NaN read as zero -/

section OrZero

variable (hf : ExpLaws f) {x y : Float}
include hf

theorem orZero_of_isNaN (hx : x.isNaN = true) : orZero (f x) = 0.0 :=
  if_pos (hf.nan x hx)

theorem orZero_of_nonpos (hx : x ≤ 0.0) : orZero (f x) = f x :=
  if_neg (by rw [Float.isNaN_left_of_le (hf.mem x hx).2]; decide)

theorem orZero_mem (hx : x.isNaN = true ∨ x ≤ 0.0) : 0.0 ≤ orZero (f x) ∧ orZero (f x) ≤ 1.0 := by
  rcases hx with hx | hx
  · rw [orZero_of_isNaN hf hx]
    decide
  · rw [orZero_of_nonpos hf hx]
    exact hf.mem x hx

theorem orZero_mono (hxy : x ≤ y) (hy : y ≤ 0.0) : orZero (f x) ≤ orZero (f y) := by
  rw [orZero_of_nonpos hf (Float.le_trans hxy hy), orZero_of_nonpos hf hy]
  exact hf.mono x y hxy

/-- At `-∞` the exponential, and so the probability, is zero. -/
theorem orZero_le_of_bot (hx : toEReal x = ⊥) (hx' : x.isNaN = false) : orZero (f x) ≤ 0.0 := by
  have hle : x ≤ 0.0 := le_of_toEReal_le hx' isNaN_zero (by rw [hx]; exact bot_le)
  rw [orZero_of_nonpos hf hle]
  exact hf.bot x hx

end OrZero

/-! ## The quotient of a worse move -/

/-- For energies that are not NaN, a worse candidate leaves a difference that is not NaN and
not positive. -/
theorem worse_sub (hc : current.isNaN = false) (hc' : candidate.isNaN = false)
    (h : ¬ candidate ≤ current) :
    (current - candidate).isNaN = false ∧ current - candidate ≤ 0.0 := by
  have hlt := Float.lt_of_not_le hc' hc h
  exact ⟨isNaN_sub_of_lt hlt, sub_nonpos_of_le (Float.le_of_lt hlt) (isNaN_sub_of_lt hlt)⟩

section Quotient

variable (ht : 0.0 < t)
include ht

/-- Over a positive temperature, a difference that is not NaN and not positive gives a quotient
that is NaN only when the difference is `-∞` and the temperature `+∞`. -/
theorem isNaN_quotient {d : Float} (hd : d ≤ 0.0) :
    (d / t).isNaN = true ↔ toEReal d = ⊥ ∧ toEReal t = ⊤ := by
  have hdt : toEReal d ≠ ⊤ := ne_top_of_le_ne_top EReal.zero_ne_top (toEReal_nonpos hd)
  have htb : toEReal t ≠ ⊥ := ne_bot_of_le_ne_bot EReal.zero_ne_bot (toEReal_pos ht).le
  rw [isNaN_div (toEReal_pos ht).ne', Float.isNaN_left_of_le hd]
  simp [hdt, htb]

theorem quotient_nonpos {d : Float} (hd : d ≤ 0.0) : (d / t).isNaN = true ∨ d / t ≤ 0.0 := by
  cases hq : (d / t).isNaN
  · exact Or.inr (div_nonpos hd ht hq)
  · exact Or.inl rfl

/-- The quotient of a worse move is NaN or at most zero. -/
theorem quotient_cases (h : ¬ candidate ≤ current) :
    ((current - candidate) / t).isNaN = true ∨ (current - candidate) / t ≤ 0.0 := by
  cases hq : ((current - candidate) / t).isNaN
  · -- neither energy is NaN, or the quotient would be
    have hsub := isNaN_left_of_div hq
    exact Or.inr (div_nonpos (worse_sub (isNaN_left_of_sub hsub) (isNaN_right_of_sub hsub) h).2
      ht hq)
  · exact Or.inl rfl

end Quotient

/-! ## The laws -/

section Probability

variable (hf : ExpLaws f)
include hf

/-- The probability of a worse move grows with the energy difference. -/
theorem orZero_quotient_mono (ht : 0.0 < t) {d d' : Float} (hdd : d ≤ d') (hd' : d' ≤ 0.0) :
    orZero (f (d / t)) ≤ orZero (f (d' / t)) := by
  have hd := Float.le_trans hdd hd'
  cases hq : (d / t).isNaN
  · cases hq' : (d' / t).isNaN
    · exact orZero_mono hf (div_le_div_of_le_left hdd ht hq hq') (div_nonpos hd' ht hq')
    · -- the larger difference is `-∞` over `+∞`, so the smaller one is too, and its quotient
      -- is NaN as well
      obtain ⟨hbot, htop⟩ := (isNaN_quotient ht hd').1 hq'
      have hbot' : toEReal d = ⊥ := le_bot_iff.1 (hbot ▸ toEReal_le_toEReal hdd)
      rw [(isNaN_quotient ht hd).2 ⟨hbot', htop⟩] at hq
      cases hq
  · rw [orZero_of_isNaN hf hq]
    exact (orZero_mem hf (quotient_nonpos ht hd')).1

theorem probabilityWith_mem (ht : 0.0 < t) :
    0.0 ≤ probabilityWith f current candidate t ∧ probabilityWith f current candidate t ≤ 1.0 := by
  by_cases h : candidate ≤ current
  · rw [probabilityWith_of_le h]
    decide
  · rw [probabilityWith_of_not_le h]
    exact orZero_mem hf (quotient_cases ht h)

theorem probabilityWith_of_isNaN (h : current.isNaN = true ∨ candidate.isNaN = true) :
    probabilityWith f current candidate t = 0.0 := by
  have hle : ¬ candidate ≤ current := by
    rcases h with h | h
    · exact Float.not_le_of_isNaN_right h
    · exact Float.not_le_of_isNaN_left h
  rw [probabilityWith_of_not_le hle]
  refine orZero_of_isNaN hf (isNaN_div_of_isNaN_left ?_ t)
  rcases h with h | h
  · exact isNaN_sub.2 (Or.inl h)
  · exact isNaN_sub.2 (Or.inr (Or.inl h))

/-- A hotter temperature accepts a worse move no less often. -/
theorem probabilityWith_mono_temperature (hc : current.isNaN = false)
    (hc' : candidate.isNaN = false) (ht : 0.0 < t) (htt : t ≤ t') :
    probabilityWith f current candidate t ≤ probabilityWith f current candidate t' := by
  have ht' := Float.lt_of_lt_of_le ht htt
  by_cases h : candidate ≤ current
  · rw [probabilityWith_of_le h, probabilityWith_of_le h]
    decide
  rw [probabilityWith_of_not_le h, probabilityWith_of_not_le h]
  have hd := (worse_sub hc hc' h).2
  cases hq' : ((current - candidate) / t').isNaN
  · cases hq : ((current - candidate) / t).isNaN
    · exact orZero_mono hf (div_le_div_of_nonpos_of_le hd ht htt hq hq') (div_nonpos hd ht' hq')
    · rw [orZero_of_isNaN hf hq]
      exact (orZero_mem hf (Or.inr (div_nonpos hd ht' hq'))).1
  · -- at `t' = +∞` a difference of `-∞` gives NaN, read as zero; at `t` it gives `-∞` or NaN
    obtain ⟨hbot, _⟩ := (isNaN_quotient ht' hd).1 hq'
    rw [orZero_of_isNaN hf hq']
    cases hq : ((current - candidate) / t).isNaN
    · refine orZero_le_of_bot hf ?_ hq
      rw [toEReal_div (toEReal_pos ht).ne' hq, hbot]
      have htop : toEReal t ≠ ⊤ := fun htop => by
        rw [(isNaN_quotient ht hd).2 ⟨hbot, htop⟩] at hq
        cases hq
      rw [EReal.bot_div_of_pos_ne_top (toEReal_pos ht) htop, roundE_bot]
    · rw [orZero_of_isNaN hf hq]
      decide

/-- A better current solution makes a move no less likely. -/
theorem probabilityWith_mono_current (hc' : candidate.isNaN = false) (ht : 0.0 < t)
    (hcc : current ≤ current') :
    probabilityWith f current candidate t ≤ probabilityWith f current' candidate t := by
  have hc := Float.isNaN_left_of_le hcc
  have hc₂ := Float.isNaN_right_of_le hcc
  by_cases h' : candidate ≤ current'
  · rw [probabilityWith_of_le h']
    exact (probabilityWith_mem hf ht).2
  have h : ¬ candidate ≤ current := fun h => h' (Float.le_trans h hcc)
  rw [probabilityWith_of_not_le h, probabilityWith_of_not_le h']
  have hdd : current - candidate ≤ current' - candidate :=
    sub_le_sub hcc (Float.le_refl_of_isNaN_eq_false hc') (worse_sub hc hc' h).1
      (worse_sub hc₂ hc' h').1
  exact orZero_quotient_mono hf ht hdd (worse_sub hc₂ hc' h').2

/-- A worse candidate is accepted no more often. -/
theorem probabilityWith_anti_candidate (hc : current.isNaN = false) (ht : 0.0 < t)
    (hcc : candidate ≤ candidate') :
    probabilityWith f current candidate' t ≤ probabilityWith f current candidate t := by
  have hc₁ := Float.isNaN_left_of_le hcc
  have hc₂ := Float.isNaN_right_of_le hcc
  by_cases h : candidate ≤ current
  · rw [probabilityWith_of_le h]
    exact (probabilityWith_mem hf ht).2
  have h' : ¬ candidate' ≤ current := fun h' => h (Float.le_trans hcc h')
  rw [probabilityWith_of_not_le h, probabilityWith_of_not_le h']
  have hdd : current - candidate' ≤ current - candidate :=
    sub_le_sub (Float.le_refl_of_isNaN_eq_false hc) hcc (worse_sub hc hc₂ h').1
      (worse_sub hc hc₁ h).1
  exact orZero_quotient_mono hf ht hdd (worse_sub hc hc₁ h).2

end Probability

end Laws

/-- The Metropolis rule draws only for a worse candidate, and then exactly one double, from one
64-bit word, which it compares with the probability. -/
theorem decide_eq (current candidate t : Float) (g : Random.Stream) :
    decide current candidate t g =
      if candidate ≤ current then (true, g)
      else (g.unit.1 < probability current candidate t, g.nextWord64.2) :=
  rfl

/-- The Metropolis probability in doubles, for any exponential with the laws of `exp`: at a
positive temperature it lies in `[0, 1]` and is never NaN; it is `1` for a candidate no worse
than the current solution and `0` when either energy is NaN; for energies that are not NaN it
does not decrease as the temperature rises or the current energy grows, and does not increase as
the candidate's energy grows. The rule itself draws one double for a worse candidate and none
otherwise, and a run's probability is the one with the C library's `exp`. -/
theorem acceptance_probability_laws (f : Float → Float) (hf : ExpLaws f) :
    (∀ current candidate t : Float, 0.0 < t →
      0.0 ≤ probabilityWith f current candidate t ∧ probabilityWith f current candidate t ≤ 1.0 ∧
        (probabilityWith f current candidate t).isNaN = false) ∧
    (∀ current candidate t : Float, candidate ≤ current →
      probabilityWith f current candidate t = 1.0) ∧
    (∀ current candidate t : Float, current.isNaN = true ∨ candidate.isNaN = true →
      probabilityWith f current candidate t = 0.0) ∧
    (∀ current candidate t t' : Float, current.isNaN = false → candidate.isNaN = false →
      0.0 < t → t ≤ t' →
      probabilityWith f current candidate t ≤ probabilityWith f current candidate t') ∧
    (∀ current current' candidate t : Float, candidate.isNaN = false → 0.0 < t →
      current ≤ current' →
      probabilityWith f current candidate t ≤ probabilityWith f current' candidate t) ∧
    (∀ current candidate candidate' t : Float, current.isNaN = false → 0.0 < t →
      candidate ≤ candidate' →
      probabilityWith f current candidate' t ≤ probabilityWith f current candidate t) ∧
    (∀ (current candidate t : Float) (g : Random.Stream), decide current candidate t g =
      if candidate ≤ current then (true, g)
      else (g.unit.1 < probability current candidate t, g.nextWord64.2)) ∧
    (∀ current candidate t : Float,
      probability current candidate t = probabilityWith Float.exp current candidate t) :=
  ⟨fun _ _ _ ht => ⟨(probabilityWith_mem hf ht).1, (probabilityWith_mem hf ht).2,
      Float.isNaN_right_of_le (probabilityWith_mem hf ht).1⟩,
    fun _ _ _ h => probabilityWith_of_le h,
    fun _ _ _ h => probabilityWith_of_isNaN hf h,
    fun _ _ _ _ hc hc' ht htt => probabilityWith_mono_temperature hf hc hc' ht htt,
    fun _ _ _ _ hc' ht hcc => probabilityWith_mono_current hf hc' ht hcc,
    fun _ _ _ _ hc ht hcc => probabilityWith_anti_candidate hf hc ht hcc,
    decide_eq, fun _ _ _ => rfl⟩

/-- An exponential that is zero off NaN. It has the laws, so they ask nothing impossible. -/
def flatExp (x : Float) : Float := if x.isNaN then x else 0.0

theorem flatExp_laws : ExpLaws flatExp where
  nan x hx := by
    rw [flatExp, if_pos hx]
    exact hx
  mem x hx := by
    rw [flatExp, if_neg (by rw [Float.isNaN_left_of_le hx]; decide)]
    decide
  bot x hx := by
    have hx' : x.isNaN = false := by
      cases h : x.isNaN
      · rfl
      · rw [toEReal_of_isNaN h] at hx
        exact absurd hx EReal.zero_ne_bot
    rw [flatExp, if_neg (by rw [hx']; decide)]
    decide
  mono x y hxy := by
    rw [flatExp, flatExp, if_neg (by rw [Float.isNaN_left_of_le hxy]; decide),
      if_neg (by rw [Float.isNaN_right_of_le hxy]; decide)]
    decide

/-- The laws at a worse candidate of infinite energy: the exponent is `-∞`, where `exp` gives
`0`, as `flatExp` does. -/
theorem flatExp_probability_mem : ExpLaws flatExp ∧
    toEReal (((0.0 : Float) - 1.0 / 0.0) / 1.0) = ⊥ ∧
    0.0 ≤ probabilityWith flatExp 0.0 (1.0 / 0.0) 1.0 ∧
      probabilityWith flatExp 0.0 (1.0 / 0.0) 1.0 ≤ 1.0 ∧
      (probabilityWith flatExp 0.0 (1.0 / 0.0) 1.0).isNaN = false :=
  ⟨flatExp_laws,
    by rw [toEReal, show (((0.0 : Float) - 1.0 / 0.0) / 1.0).toModel.unpack =
      .infinity .negative from rfl]; rfl,
    (acceptance_probability_laws flatExp flatExp_laws).1 0.0 (1.0 / 0.0) 1.0 (by decide)⟩

end Acceptance

end Annealing
