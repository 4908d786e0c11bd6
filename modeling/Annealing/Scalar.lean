/-!
# Numbers for cooling and acceptance

Cooling schedules, the adaptive controller and the Metropolis probability are written once,
over any type with the operations of `Scalar`. A run computes them in doubles, where every
comparison with a NaN is false and `isNaN` tells NaN apart. The same definitions can be read
in an ordered field with its exponential, logarithm, square root and real powers, where
nothing is NaN: that reading is what statements "in exact arithmetic" are about.
-/

namespace Annealing

/-- The arithmetic that schedules and acceptance are computed in. -/
class Scalar (α : Type) extends Add α, Sub α, Mul α, Div α, LT α, LE α, OfScientific α where
  /-- A count as a number of this type (rounded to the nearest double when running). -/
  ofNat : Nat → α
  /-- Real powers `x ^ y`. -/
  pow : α → α → α
  exp : α → α
  log : α → α
  sqrt : α → α
  isNaN : α → Bool
  decLt : DecidableRel (fun a b : α => a < b)
  decLe : DecidableRel (fun a b : α => a ≤ b)

instance Scalar.decidableLt {α : Type} [Scalar α] : DecidableRel (fun a b : α => a < b) :=
  Scalar.decLt

instance Scalar.decidableLe {α : Type} [Scalar α] : DecidableRel (fun a b : α => a ≤ b) :=
  Scalar.decLe

/-- Doubles, with the operations of the C mathematical library. -/
instance Scalar.float : Scalar Float where
  ofNat := Nat.toFloat
  pow := Float.pow
  exp := Float.exp
  log := Float.log
  sqrt := Float.sqrt
  isNaN := Float.isNaN
  decLt := Float.decLt
  decLe := Float.decLe

end Annealing
