import Mathlib
import Annealing.Proofs.Binary64.Operations

/-!
# Doubles as extended reals

`toEReal` reads a double as an extended real: both zeros at `0`, the infinities at `⊥` and
`⊤`, and NaN, which no comparison sees, at `0` too. Off NaN the IEEE order is the order of
these values (`le_iff_toEReal`). Each of `+`, `-`, `*` and `/` is NaN exactly on the operand
pairs IEEE calls invalid, and otherwise it is the operation on extended reals followed by
`roundE`, which keeps the infinities and rounds a real to the nearest double (`toEReal_add`
and the like). Division is read this way only by a divisor that is not zero: a zero divisor
has a sign that the extended reals forget.

The case analyses follow the definitions of the operations: an operand is NaN, an infinity, a
zero or a finite pair, and `Outcome` records what each case gives.
-/

namespace Annealing.Binary64

open Float.Model UnpackedFloat

/-- Rounding in the extended reals: the infinities stay, and a real rounds to the nearest
double, or overflows to an infinity. -/
noncomputable def roundE (x : EReal) : EReal :=
  EReal.rec ⊥ (fun r => nearestExt r) ⊤ x

@[simp] theorem roundE_bot : roundE ⊥ = ⊥ := rfl

@[simp] theorem roundE_top : roundE ⊤ = ⊤ := rfl

@[simp] theorem roundE_coe (r : ℝ) : roundE r = nearestExt r := rfl

@[simp] theorem roundE_zero : roundE 0 = 0 := by
  rw [← EReal.coe_zero, roundE_coe, nearestExt_zero, EReal.coe_zero]

theorem roundE_mono : Monotone roundE := by
  intro x y h
  induction x with
  | bot => exact bot_le
  | top => rw [top_le_iff.1 h]
  | coe r =>
    induction y with
    | bot => exact absurd h (by simp)
    | top => exact le_top
    | coe r' => exact nearestExt_mono (EReal.coe_le_coe_iff.1 h)

/-- Every double rounds to itself. -/
theorem roundE_extValue {u : UnpackedFloat} (h : Holds u) : roundE (extValue u) = extValue u := by
  cases u with
  | infinity s => cases s <;> rfl
  | notANumber => exact roundE_zero
  | zero s => exact roundE_zero
  | finite s m e hm =>
    rw [extValue_finite, roundE_coe]
    exact nearestExt_value h

/-! ## What an operation yields -/

/-- `u`, the unpacked result of an operation, is NaN exactly when `bad` holds, and otherwise it
packs to a double worth the exact result `r` rounded. -/
structure Outcome (u : UnpackedFloat) (bad : Prop) (r : EReal) : Prop where
  nan_iff : (Float.Model.pack u).unpack = .notANumber ↔ bad
  extValue_eq :
    (Float.Model.pack u).unpack ≠ .notANumber → extValue (Float.Model.pack u).unpack = roundE r

namespace Outcome

variable {bad : Prop} {r : EReal}

theorem nan (h : bad) : Outcome .notANumber bad r :=
  ⟨iff_of_true unpack_pack_notANumber h, fun h' => absurd unpack_pack_notANumber h'⟩

theorem infinity {s : Sign} (h : ¬ bad) (hr : roundE r = extValue (.infinity s)) :
    Outcome (.infinity s) bad r := by
  refine ⟨?_, ?_⟩ <;> rw [unpack_pack_infinity]
  · exact iff_of_false (by intro h; cases h) h
  · exact fun _ => hr.symm

theorem zero {s : Sign} (h : ¬ bad) (hr : roundE r = 0) : Outcome (.zero s) bad r := by
  refine ⟨?_, ?_⟩ <;> rw [unpack_pack_zero]
  · exact iff_of_false (by intro h; cases h) h
  · exact fun _ => hr.symm

theorem of_packsTo {u : UnpackedFloat} {x : ℝ} (hp : PacksTo u x) (h : ¬ bad) (hr : r = x) :
    Outcome u bad r :=
  ⟨iff_of_false hp.1 h, fun _ => by rw [hp.2, hr, roundE_coe]⟩

end Outcome

section Operations

variable {a b : UnpackedFloat}

theorem ne_nan_of_isFinite (hf : a.isFinite = true) : a ≠ .notANumber := by
  intro h
  subst h
  cases hf

/-- A finite double is worth a real. -/
theorem extValue_ne_top (hf : a.isFinite = true) : extValue a ≠ ⊤ := by
  rw [extValue_eq_value hf]
  exact EReal.coe_ne_top _

theorem extValue_ne_bot (hf : a.isFinite = true) : extValue a ≠ ⊥ := by
  rw [extValue_eq_value hf]
  exact EReal.coe_ne_bot _

/-! An infinity plus or minus a finite double is that infinity, or its negation. -/

theorem extValue_infinity_add (s : Sign) (hb : b.isFinite = true) :
    extValue (.infinity s) + extValue b = extValue (.infinity s) := by
  rw [extValue_eq_value hb]
  cases s
  · exact EReal.bot_add _
  · exact EReal.top_add_coe _

theorem add_extValue_infinity (s : Sign) (ha : a.isFinite = true) :
    extValue a + extValue (.infinity s) = extValue (.infinity s) := by
  rw [add_comm, extValue_infinity_add s ha]

theorem roundE_extValue_infinity (s : Sign) :
    roundE (extValue (.infinity s)) = extValue (.infinity s) :=
  roundE_extValue trivial

theorem signed_ne_zero (s : Sign) {v : ℝ} (hv : v ≠ 0) : signed s v ≠ 0 := by
  cases s
  · exact neg_ne_zero.2 hv
  · exact hv

theorem extValue_infinity_sub (s : Sign) (hb : b.isFinite = true) :
    extValue (.infinity s) - extValue b = extValue (.infinity s) := by
  rw [extValue_eq_value hb]
  cases s
  · exact EReal.bot_sub _
  · exact EReal.top_sub_coe _

theorem sub_extValue_infinity (s : Sign) (ha : a.isFinite = true) :
    extValue a - extValue (.infinity s) = extValue (.infinity (-s)) := by
  rw [extValue_eq_value ha]
  cases s
  · exact EReal.coe_sub_bot _
  · exact EReal.sub_top _

/-- An infinity times a nonzero real is the infinity of the product's sign. -/
theorem extValue_infinity_mul (s s' : Sign) {v : ℝ} (hv : 0 < v) :
    extValue (.infinity s) * (signed s' v : ℝ) = extValue (.infinity (s * s')) := by
  have hv' : ((-v : ℝ) : EReal) < 0 := by exact_mod_cast neg_neg_of_pos hv
  have hv'' : (0 : EReal) < (v : ℝ) := by exact_mod_cast hv
  cases s <;> cases s'
  · exact EReal.bot_mul_of_neg hv'
  · exact EReal.bot_mul_of_pos hv''
  · exact EReal.top_mul_of_neg hv'
  · exact EReal.top_mul_of_pos hv''

theorem mul_extValue_infinity (s s' : Sign) {v : ℝ} (hv : 0 < v) :
    (signed s v : EReal) * extValue (.infinity s') = extValue (.infinity (s * s')) := by
  rw [mul_comm, extValue_infinity_mul s' s hv]
  cases s <;> cases s' <;> rfl

/-- An infinity over a nonzero real is the infinity of the quotient's sign. -/
theorem extValue_infinity_div (s s' : Sign) {v : ℝ} (hv : 0 < v) :
    extValue (.infinity s) / (signed s' v : ℝ) = extValue (.infinity (s / s')) := by
  have hv' : ((-v : ℝ) : EReal) < 0 := by exact_mod_cast neg_neg_of_pos hv
  have hv'' : (0 : EReal) < (v : ℝ) := by exact_mod_cast hv
  cases s <;> cases s'
  · exact EReal.bot_div_of_neg_ne_bot hv' (EReal.coe_ne_bot _)
  · exact EReal.bot_div_of_pos_ne_top hv'' (EReal.coe_ne_top _)
  · exact EReal.top_div_of_neg_ne_bot hv' (EReal.coe_ne_bot _)
  · exact EReal.top_div_of_pos_ne_top hv'' (EReal.coe_ne_top _)

theorem div_extValue_infinity (x : EReal) (s : Sign) : x / extValue (.infinity s) = 0 := by
  cases s
  · exact EReal.div_bot
  · exact EReal.div_top

/-- The sum is NaN on a NaN operand or on infinities of opposite signs; otherwise it is the exact
sum rounded. -/
theorem outcome_add (ha : Holds a) (hb : Holds b) :
    Outcome (add Format.binary64 a b)
      (a = .notANumber ∨ b = .notANumber ∨ (extValue a = ⊤ ∧ extValue b = ⊥) ∨
        (extValue a = ⊥ ∧ extValue b = ⊤))
      (extValue a + extValue b) := by
  by_cases hfin : a.isFinite = true ∧ b.isFinite = true
  · obtain ⟨hfa, hfb⟩ := hfin
    refine .of_packsTo (packsTo_add ha hb hfa hfb) ?_ ?_
    · simp [ne_nan_of_isFinite hfa, ne_nan_of_isFinite hfb, extValue_ne_top hfa,
        extValue_ne_bot hfa]
    · rw [extValue_eq_value hfa, extValue_eq_value hfb, EReal.coe_add]
  -- an operand is NaN or infinite: the cases the definition lists before any rounding
  cases a with
  | notANumber => exact .nan (Or.inl rfl)
  | infinity s =>
    cases b with
    | notANumber => exact .nan (Or.inr (Or.inl rfl))
    | infinity s' =>
      cases s <;> cases s'
      · exact .infinity (by simp) (by simp)
      · exact .nan (by simp)
      · exact .nan (by simp)
      · exact .infinity (by simp) (by simp)
    | _ =>
      refine .infinity (by cases s <;> simp) ?_
      rw [extValue_infinity_add s rfl, roundE_extValue_infinity]
  | _ =>
    -- a zero or a finite pair, against NaN or an infinity
    cases b with
    | notANumber => exact .nan (Or.inr (Or.inl rfl))
    | infinity s' =>
      refine .infinity (by cases s' <;> simp) ?_
      rw [add_extValue_infinity s' rfl, roundE_extValue_infinity]
    | _ => exact absurd ⟨rfl, rfl⟩ hfin

/-- The difference is NaN on a NaN operand or on infinities of the same sign; otherwise it is the
exact difference rounded. -/
theorem outcome_sub (ha : Holds a) (hb : Holds b) :
    Outcome (sub Format.binary64 a b)
      (a = .notANumber ∨ b = .notANumber ∨ (extValue a = ⊤ ∧ extValue b = ⊤) ∨
        (extValue a = ⊥ ∧ extValue b = ⊥))
      (extValue a - extValue b) := by
  by_cases hfin : a.isFinite = true ∧ b.isFinite = true
  · obtain ⟨hfa, hfb⟩ := hfin
    refine .of_packsTo (packsTo_sub ha hb hfa hfb) ?_ ?_
    · simp [ne_nan_of_isFinite hfa, ne_nan_of_isFinite hfb, extValue_ne_top hfa,
        extValue_ne_bot hfa]
    · rw [extValue_eq_value hfa, extValue_eq_value hfb, EReal.coe_sub]
  cases a with
  | notANumber => exact .nan (Or.inl rfl)
  | infinity s =>
    cases b with
    | notANumber => exact .nan (Or.inr (Or.inl rfl))
    | infinity s' =>
      cases s <;> cases s'
      · exact .nan (by simp)
      · exact .infinity (by simp) (by simp)
      · exact .infinity (by simp) (by simp)
      · exact .nan (by simp)
    | _ =>
      refine .infinity (by cases s <;> simp) ?_
      rw [extValue_infinity_sub s rfl, roundE_extValue_infinity]
  | _ =>
    cases b with
    | notANumber => exact .nan (Or.inr (Or.inl rfl))
    | infinity s' =>
      refine .infinity (by cases s' <;> simp) ?_
      rw [sub_extValue_infinity s' rfl, roundE_extValue_infinity]
    | _ => exact absurd ⟨rfl, rfl⟩ hfin

/-- The product is NaN on a NaN operand or on a zero times an infinity; otherwise it is the
exact product rounded. -/
theorem outcome_mul (ha : Holds a) (hb : Holds b) :
    Outcome (mul Format.binary64 a b)
      (a = .notANumber ∨ b = .notANumber ∨ (extValue a = 0 ∧ (extValue b = ⊤ ∨ extValue b = ⊥)) ∨
        ((extValue a = ⊤ ∨ extValue a = ⊥) ∧ extValue b = 0))
      (extValue a * extValue b) := by
  by_cases hfin : a.isFinite = true ∧ b.isFinite = true
  · obtain ⟨hfa, hfb⟩ := hfin
    refine .of_packsTo (packsTo_mul ha hb hfa hfb) ?_ ?_
    · simp [ne_nan_of_isFinite hfa, ne_nan_of_isFinite hfb, extValue_ne_top hfa,
        extValue_ne_bot hfa, extValue_ne_top hfb, extValue_ne_bot hfb]
    · rw [extValue_eq_value hfa, extValue_eq_value hfb, EReal.coe_mul]
  cases a with
  | notANumber => exact .nan (Or.inl rfl)
  | infinity s =>
    cases b with
    | notANumber => exact .nan (Or.inr (Or.inl rfl))
    | infinity s' =>
      refine .infinity (by cases s <;> cases s' <;> simp) ?_
      cases s <;> cases s' <;> rfl
    | zero s' => exact .nan (by cases s <;> simp)
    | finite s' m e hm =>
      refine .infinity (by cases s <;> simp [signed_ne_zero s' (magnitude_pos hm e).ne']) ?_
      rw [extValue_finite, extValue_infinity_mul s s' (magnitude_pos hm e),
        roundE_extValue_infinity]
  | zero s =>
    cases b with
    | notANumber => exact .nan (Or.inr (Or.inl rfl))
    | infinity s' => exact .nan (by cases s' <;> simp)
    | _ => exact absurd ⟨rfl, rfl⟩ hfin
  | finite s m e hm =>
    cases b with
    | notANumber => exact .nan (Or.inr (Or.inl rfl))
    | infinity s' =>
      refine .infinity (by cases s' <;> simp [signed_ne_zero s (magnitude_pos hm e).ne']) ?_
      rw [extValue_finite, mul_extValue_infinity s s' (magnitude_pos hm e),
        roundE_extValue_infinity]
    | _ => exact absurd ⟨rfl, rfl⟩ hfin

/-- By a divisor that is not zero, the quotient is NaN on a NaN dividend or on an infinity over
an infinity; otherwise it is the exact quotient rounded. -/
theorem outcome_div (ha : Holds a) (hb : Holds b) (hb0 : extValue b ≠ 0) :
    Outcome (div Format.binary64 a b)
      (a = .notANumber ∨ ((extValue a = ⊤ ∨ extValue a = ⊥) ∧ (extValue b = ⊤ ∨ extValue b = ⊥)))
      (extValue a / extValue b) := by
  by_cases hfin : a.isFinite = true ∧ b.isFinite = true
  · obtain ⟨hfa, hfb⟩ := hfin
    have hv0 : value b ≠ 0 := by
      rw [extValue_eq_value hfb] at hb0
      exact_mod_cast hb0
    refine .of_packsTo (packsTo_div ha hb hfa hfb hv0) ?_ ?_
    · simp [ne_nan_of_isFinite hfa, extValue_ne_top hfa, extValue_ne_bot hfa]
    · rw [extValue_eq_value hfa, extValue_eq_value hfb, EReal.coe_div]
  cases b with
  | notANumber => exact absurd rfl hb0
  | zero s' => exact absurd rfl hb0
  | infinity s' =>
    cases a with
    | notANumber => exact .nan (Or.inl rfl)
    | infinity s => exact .nan (by cases s <;> cases s' <;> simp)
    | zero s =>
      refine .zero (by cases s' <;> simp) ?_
      rw [div_extValue_infinity, roundE_zero]
    | finite s m e hm =>
      refine .zero (by cases s' <;> simp) ?_
      rw [div_extValue_infinity, roundE_zero]
  | finite s' m e hm =>
    cases a with
    | notANumber => exact .nan (Or.inl rfl)
    | infinity s =>
      refine .infinity (by cases s <;> simp) ?_
      rw [extValue_finite, extValue_infinity_div s s' (magnitude_pos hm e),
        roundE_extValue_infinity]
    | _ => exact absurd ⟨rfl, rfl⟩ hfin

end Operations

/-! ## Doubles -/

/-- The extended real a double stands for. -/
noncomputable def toEReal (x : Float) : EReal := extValue x.toModel.unpack

/-- The real number a double stands for; the infinities and NaN read as zero. -/
noncomputable def toReal (x : Float) : ℝ := value x.toModel.unpack

section Float

variable {x y : Float}

theorem le_iff_toEReal (hx : x.isNaN = false) (hy : y.isNaN = false) :
    x ≤ y ↔ toEReal x ≤ toEReal y :=
  Float.le_iff_unpacked.trans (le_iff_extValue (unpack_holds _) (unpack_holds _)
    (Float.unpack_ne_of_isNaN_eq_false hx) (Float.unpack_ne_of_isNaN_eq_false hy))

theorem lt_iff_toEReal (hx : x.isNaN = false) (hy : y.isNaN = false) :
    x < y ↔ toEReal x < toEReal y :=
  Float.lt_iff_unpacked.trans (lt_iff_extValue (unpack_holds _) (unpack_holds _)
    (Float.unpack_ne_of_isNaN_eq_false hx) (Float.unpack_ne_of_isNaN_eq_false hy))

theorem roundE_toEReal (x : Float) : roundE (toEReal x) = toEReal x :=
  roundE_extValue (unpack_holds _)

theorem toEReal_eq_toReal (hx : x.isFinite = true) : toEReal x = toReal x :=
  extValue_eq_value hx

/-- A double is finite when it is neither NaN nor worth an infinity. -/
theorem isFinite_iff : x.isFinite = true ↔ x.isNaN = false ∧ toEReal x ≠ ⊤ ∧ toEReal x ≠ ⊥ := by
  show x.toModel.unpack.isFinite = true ↔
    x.toModel.unpack.isNaN = false ∧ extValue x.toModel.unpack ≠ ⊤ ∧
      extValue x.toModel.unpack ≠ ⊥
  cases x.toModel.unpack with
  | infinity s => cases s <;> simp [UnpackedFloat.isFinite]
  | notANumber => simp [UnpackedFloat.isFinite, UnpackedFloat.isNaN]
  | zero s => simp [UnpackedFloat.isFinite, UnpackedFloat.isNaN]
  | finite s m e hm => simp [UnpackedFloat.isFinite, UnpackedFloat.isNaN]

theorem isNaN_add : (x + y).isNaN = true ↔ x.isNaN = true ∨ y.isNaN = true ∨
    (toEReal x = ⊤ ∧ toEReal y = ⊥) ∨ (toEReal x = ⊥ ∧ toEReal y = ⊤) := by
  simp only [Float.isNaN_iff_unpacked]
  exact (outcome_add (unpack_holds _) (unpack_holds _)).nan_iff

theorem toEReal_add (h : (x + y).isNaN = false) :
    toEReal (x + y) = roundE (toEReal x + toEReal y) :=
  (outcome_add (unpack_holds _) (unpack_holds _)).extValue_eq
    (Float.unpack_ne_of_isNaN_eq_false h)

theorem isNaN_sub : (x - y).isNaN = true ↔ x.isNaN = true ∨ y.isNaN = true ∨
    (toEReal x = ⊤ ∧ toEReal y = ⊤) ∨ (toEReal x = ⊥ ∧ toEReal y = ⊥) := by
  simp only [Float.isNaN_iff_unpacked]
  exact (outcome_sub (unpack_holds _) (unpack_holds _)).nan_iff

theorem toEReal_sub (h : (x - y).isNaN = false) :
    toEReal (x - y) = roundE (toEReal x - toEReal y) :=
  (outcome_sub (unpack_holds _) (unpack_holds _)).extValue_eq
    (Float.unpack_ne_of_isNaN_eq_false h)

theorem isNaN_mul : (x * y).isNaN = true ↔ x.isNaN = true ∨ y.isNaN = true ∨
    (toEReal x = 0 ∧ (toEReal y = ⊤ ∨ toEReal y = ⊥)) ∨
      ((toEReal x = ⊤ ∨ toEReal x = ⊥) ∧ toEReal y = 0) := by
  simp only [Float.isNaN_iff_unpacked]
  exact (outcome_mul (unpack_holds _) (unpack_holds _)).nan_iff

theorem toEReal_mul (h : (x * y).isNaN = false) :
    toEReal (x * y) = roundE (toEReal x * toEReal y) :=
  (outcome_mul (unpack_holds _) (unpack_holds _)).extValue_eq
    (Float.unpack_ne_of_isNaN_eq_false h)

theorem isNaN_div (hy : toEReal y ≠ 0) : (x / y).isNaN = true ↔ x.isNaN = true ∨
    ((toEReal x = ⊤ ∨ toEReal x = ⊥) ∧ (toEReal y = ⊤ ∨ toEReal y = ⊥)) := by
  simp only [Float.isNaN_iff_unpacked]
  exact (outcome_div (unpack_holds _) (unpack_holds _) hy).nan_iff

theorem toEReal_div (hy : toEReal y ≠ 0) (h : (x / y).isNaN = false) :
    toEReal (x / y) = roundE (toEReal x / toEReal y) :=
  (outcome_div (unpack_holds _) (unpack_holds _) hy).extValue_eq
    (Float.unpack_ne_of_isNaN_eq_false h)

end Float

end Annealing.Binary64
