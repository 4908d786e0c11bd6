import Mathlib

/-!
# The IEEE order on doubles

Energies are doubles and are compared the IEEE way: every comparison with a NaN is false,
and the two zeros are equal without being the same double. Off NaN, `≤` is a total preorder
and `<` is its strict part. The register and the workers rely on nothing more, and this file
proves exactly that much.

Core reads `≤` and `<` on `Float` through `Float.Model`, which compares unpacked values: NaN,
a signed infinity, a signed zero, or a sign with a mantissa and an exponent. Rather than
reason about that comparison case by case in every proof, each unpacked value gets a key in
`ℤ ×ₗ ℤ ×ₗ ℤ`: its class (−∞, negative, zero, positive, +∞), then its exponent and mantissa,
negated on the negative side. Two comparisons off NaN are comparisons of keys
(`Float.le_iff_key`, `Float.lt_iff_key`), so the order facts below are facts about a
lexicographic order. Both zeros share a key; that is the one place where the preorder is not
antisymmetric.
-/

namespace Annealing

open Float.Model

/-- Where an unpacked double stands in the IEEE order. NaN gets a key of its own, which no
comparison reads. -/
def Float.unpackedKey : UnpackedFloat → ℤ ×ₗ ℤ ×ₗ ℤ
  | .infinity .negative => toLex (0, toLex (0, 0))
  | .finite .negative m e _ => toLex (1, toLex (-e, -m))
  | .zero _ => toLex (2, toLex (0, 0))
  | .finite .positive m e _ => toLex (3, toLex (e, m))
  | .infinity .positive => toLex (4, toLex (0, 0))
  | .notANumber => toLex (5, toLex (0, 0))

/-- The key of a double. -/
def Float.key (x : Float) : ℤ ×ₗ ℤ ×ₗ ℤ := Float.unpackedKey x.toModel.unpack

namespace Float

/-! ## From `Float` to its unpacked value -/

theorem le_iff_unpacked {x y : Float} :
    x ≤ y ↔ x.toModel.unpack.le y.toModel.unpack = true := by
  show decide (x.toModel ≤ y.toModel) = true ↔ _
  rw [decide_eq_true_iff]
  rfl

theorem lt_iff_unpacked {x y : Float} :
    x < y ↔ x.toModel.unpack.lt y.toModel.unpack = true := by
  show decide (x.toModel < y.toModel) = true ↔ _
  rw [decide_eq_true_iff]
  rfl

theorem isNaN_iff_unpacked {x : Float} : x.isNaN = true ↔ x.toModel.unpack = .notANumber := by
  show x.toModel.unpack.isNaN = true ↔ _
  cases x.toModel.unpack <;> simp [UnpackedFloat.isNaN]

/-! ## Comparisons are comparisons of keys

The unpacked comparison looks at the classes first, then at exponent and mantissa, swapping
the verdict between two negative numbers; the key does the same by negating them. -/

theorem unpacked_le_iff {a b : UnpackedFloat} (ha : a ≠ .notANumber) (hb : b ≠ .notANumber) :
    a.le b = true ↔ unpackedKey a ≤ unpackedKey b := by
  rcases a with ⟨_ | _⟩ | _ | ⟨_ | _⟩ | ⟨_ | _, m, e, hm⟩ <;>
  rcases b with ⟨_ | _⟩ | _ | ⟨_ | _⟩ | ⟨_ | _, m', e', hm'⟩ <;>
  simp_all [UnpackedFloat.le, UnpackedFloat.compare, unpackedKey, Prod.Lex.toLex_le_toLex,
    compare, compareOfLessAndEq] <;>
  split_ifs <;> simp <;> omega

theorem unpacked_lt_iff {a b : UnpackedFloat} (ha : a ≠ .notANumber) (hb : b ≠ .notANumber) :
    a.lt b = true ↔ unpackedKey a < unpackedKey b := by
  rcases a with ⟨_ | _⟩ | _ | ⟨_ | _⟩ | ⟨_ | _, m, e, hm⟩ <;>
  rcases b with ⟨_ | _⟩ | _ | ⟨_ | _⟩ | ⟨_ | _, m', e', hm'⟩ <;>
  simp_all [UnpackedFloat.lt, UnpackedFloat.compare, unpackedKey, Prod.Lex.toLex_lt_toLex,
    compare, compareOfLessAndEq] <;>
  split_ifs <;> simp <;> omega

theorem unpack_ne_of_isNaN_eq_false {x : Float} (hx : x.isNaN = false) :
    x.toModel.unpack ≠ .notANumber := by
  intro h
  rw [isNaN_iff_unpacked.2 h] at hx
  cases hx

theorem le_iff_key {x y : Float} (hx : x.isNaN = false) (hy : y.isNaN = false) :
    x ≤ y ↔ key x ≤ key y :=
  le_iff_unpacked.trans
    (unpacked_le_iff (unpack_ne_of_isNaN_eq_false hx) (unpack_ne_of_isNaN_eq_false hy))

theorem lt_iff_key {x y : Float} (hx : x.isNaN = false) (hy : y.isNaN = false) :
    x < y ↔ key x < key y :=
  lt_iff_unpacked.trans
    (unpacked_lt_iff (unpack_ne_of_isNaN_eq_false hx) (unpack_ne_of_isNaN_eq_false hy))

/-! ## NaN compares with nothing -/

theorem not_le_of_isNaN_left {x y : Float} (hx : x.isNaN = true) : ¬ x ≤ y := by
  rw [le_iff_unpacked, isNaN_iff_unpacked.1 hx]
  simp [UnpackedFloat.le, UnpackedFloat.compare]

theorem not_le_of_isNaN_right {x y : Float} (hy : y.isNaN = true) : ¬ x ≤ y := by
  rw [le_iff_unpacked, isNaN_iff_unpacked.1 hy]
  cases x.toModel.unpack <;> simp [UnpackedFloat.le, UnpackedFloat.compare]

theorem not_lt_of_isNaN_left {x y : Float} (hx : x.isNaN = true) : ¬ x < y := by
  rw [lt_iff_unpacked, isNaN_iff_unpacked.1 hx]
  simp [UnpackedFloat.lt, UnpackedFloat.compare]

theorem not_lt_of_isNaN_right {x y : Float} (hy : y.isNaN = true) : ¬ x < y := by
  rw [lt_iff_unpacked, isNaN_iff_unpacked.1 hy]
  cases x.toModel.unpack <;> simp [UnpackedFloat.lt, UnpackedFloat.compare]

theorem isNaN_left_of_le {x y : Float} (h : x ≤ y) : x.isNaN = false := by
  cases hx : x.isNaN
  · rfl
  · exact absurd h (not_le_of_isNaN_left hx)

theorem isNaN_right_of_le {x y : Float} (h : x ≤ y) : y.isNaN = false := by
  cases hy : y.isNaN
  · rfl
  · exact absurd h (not_le_of_isNaN_right hy)

theorem isNaN_left_of_lt {x y : Float} (h : x < y) : x.isNaN = false := by
  cases hx : x.isNaN
  · rfl
  · exact absurd h (not_lt_of_isNaN_left hx)

theorem isNaN_right_of_lt {x y : Float} (h : x < y) : y.isNaN = false := by
  cases hy : y.isNaN
  · rfl
  · exact absurd h (not_lt_of_isNaN_right hy)

/-! ## A total preorder off NaN -/

theorem le_refl_of_isNaN_eq_false {x : Float} (hx : x.isNaN = false) : x ≤ x :=
  (le_iff_key hx hx).2 le_rfl

theorem le_trans {x y z : Float} (h₁ : x ≤ y) (h₂ : y ≤ z) : x ≤ z := by
  have hx := isNaN_left_of_le h₁
  have hy := isNaN_right_of_le h₁
  have hz := isNaN_right_of_le h₂
  exact (le_iff_key hx hz).2 (((le_iff_key hx hy).1 h₁).trans ((le_iff_key hy hz).1 h₂))

theorem lt_of_lt_of_le {x y z : Float} (h₁ : x < y) (h₂ : y ≤ z) : x < z := by
  have hx := isNaN_left_of_lt h₁
  have hy := isNaN_right_of_lt h₁
  have hz := isNaN_right_of_le h₂
  exact (lt_iff_key hx hz).2 (((lt_iff_key hx hy).1 h₁).trans_le ((le_iff_key hy hz).1 h₂))

theorem lt_of_le_of_lt {x y z : Float} (h₁ : x ≤ y) (h₂ : y < z) : x < z := by
  have hx := isNaN_left_of_le h₁
  have hy := isNaN_right_of_le h₁
  have hz := isNaN_right_of_lt h₂
  exact (lt_iff_key hx hz).2 (((le_iff_key hx hy).1 h₁).trans_lt ((lt_iff_key hy hz).1 h₂))

theorem le_of_lt {x y : Float} (h : x < y) : x ≤ y := by
  have hx := isNaN_left_of_lt h
  have hy := isNaN_right_of_lt h
  exact (le_iff_key hx hy).2 ((lt_iff_key hx hy).1 h).le

theorem lt_irrefl (x : Float) : ¬ x < x := by
  cases hx : x.isNaN
  · rw [lt_iff_key hx hx]
    exact fun h => lt_asymm h h
  · exact not_lt_of_isNaN_left hx

theorem not_lt_of_le {x y : Float} (h : x ≤ y) : ¬ y < x :=
  fun h' => lt_irrefl x (lt_of_le_of_lt h h')

theorem not_le_of_lt {x y : Float} (h : x < y) : ¬ y ≤ x :=
  fun h' => lt_irrefl x (lt_of_lt_of_le h h')

theorem le_of_not_lt {x y : Float} (hx : x.isNaN = false) (hy : y.isNaN = false)
    (h : ¬ x < y) : y ≤ x := by
  rw [lt_iff_key hx hy, not_lt] at h
  exact (le_iff_key hy hx).2 h

theorem lt_of_not_le {x y : Float} (hx : x.isNaN = false) (hy : y.isNaN = false)
    (h : ¬ x ≤ y) : y < x := by
  rw [le_iff_key hx hy, not_le] at h
  exact (lt_iff_key hy hx).2 h

/-! ## Positive infinity

An empty register reads as `1.0 / 0.0`, which is `+∞`: above every double but NaN, and
below none. -/

theorem unpack_inf : ((1.0 : Float) / 0.0).toModel.unpack = .infinity .positive := by
  rfl

theorem isNaN_inf : ((1.0 : Float) / 0.0).isNaN = false := by
  decide

theorem key_le_inf {x : Float} (hx : x.isNaN = false) : key x ≤ key (1.0 / 0.0) := by
  have hne := unpack_ne_of_isNaN_eq_false hx
  rw [key, key, unpack_inf]
  generalize x.toModel.unpack = u at hne ⊢
  rcases u with ⟨_ | _⟩ | _ | ⟨_ | _⟩ | ⟨_ | _, m, e, hm⟩ <;>
  simp_all [unpackedKey, Prod.Lex.toLex_le_toLex]

theorem le_inf {x : Float} (hx : x.isNaN = false) : x ≤ 1.0 / 0.0 :=
  (le_iff_key hx isNaN_inf).2 (key_le_inf hx)

theorem not_inf_lt (x : Float) : ¬ (1.0 / 0.0 : Float) < x := by
  cases hx : x.isNaN
  · exact not_lt_of_le (le_inf hx)
  · exact not_lt_of_isNaN_right hx

end Float

/-- The two zeros are equal in the IEEE order: neither is below the other. -/
example : ¬ ((-0.0 : Float) < 0.0) ∧ ¬ ((0.0 : Float) < -0.0) ∧ (-0.0 : Float) ≠ 0.0 := by
  decide

end Annealing
