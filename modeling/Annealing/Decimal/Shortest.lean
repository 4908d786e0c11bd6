/-!
# The shortest decimal that reads back as a double

A finite double is a sign and `mantissa · 2^exponent`. Reading a decimal rounds it to the
nearest double, ties to the even mantissa, so the reals that read back as a double form an
interval around it: half a unit of the last place to each side, with both ends included
exactly when the mantissa is even. Only at a power of two, where the binade below is twice
as fine, is the lower half-gap a quarter unit.

`Binary.shortest` looks for the coarsest decimal grid that meets that interval. On the grid of
`n` significant digits the only candidates are the value's two neighbours on the grid: if
any point of the grid lies in the interval, one of those two does, since the interval
contains the value. The first grid with a hit gives the digit count; of two hits the nearer
wins, and an exact tie is settled by a `Tie` rule: to the even digit string, or up to the
larger one. Seventeen digits always hit, because that grid is finer than the spacing of
doubles.

All comparisons are between exact rationals, written over natural numbers.
-/

namespace Annealing.Decimal

/-- A finite double taken apart: its sign, and its value `mantissa · 2^exponent`. The flag
`narrowBelow` marks a value whose lower neighbour is only half a unit away, which happens at
a power of two that is not the smallest normal magnitude. -/
structure Binary where
  negative : Bool
  mantissa : Nat
  exponent : Int
  narrowBelow : Bool
  deriving Repr, DecidableEq

/-- A decimal `digits · 10^exponent`, with its sign kept apart. -/
structure Scientific where
  negative : Bool
  digits : Nat
  exponent : Int
  deriving Repr, DecidableEq

/-- How an exact tie between two equally near digit strings is settled. -/
inductive Tie
  /-- The string whose last digit is even wins. -/
  | toEven
  /-- The larger string wins. -/
  | up
  deriving Repr, DecidableEq

namespace Binary

/-- Splits the bits of a double; infinities and NaN have no binary value. -/
def ofFloat? (x : Float) : Option Binary :=
  let bits : Nat := x.toBits.toNat
  let negative := bits / Nat.pow 2 63 = 1
  let biased : Nat := (bits / Nat.pow 2 52) % Nat.pow 2 11
  let fraction := bits % Nat.pow 2 52
  if biased = Nat.pow 2 11 - 1 then none
  else if biased = 0 then
    some ⟨negative, fraction, -1074, false⟩
  else
    some ⟨negative, fraction + Nat.pow 2 52, (biased : Int) - 1075, fraction = 0 ∧ biased > 1⟩

/-- Number of decimal digits of a positive number (one for zero). -/
def digitCount (n : Nat) : Nat :=
  (Nat.toDigits 10 n).length

/-- The decimal exponent of the leading digit: `10^e ≤ value < 10^(e+1)` for a value
`numerator / denominator` that is positive. -/
def leadingExponent (numerator denominator : Nat) : Int :=
  if denominator ≤ numerator then
    (digitCount (numerator / denominator) : Int) - 1
  else
    -- the least `j` with `numerator · 10^j ≥ denominator` is the digit count of `c - 1`,
    -- where `c` is `denominator / numerator` rounded up
    let c := (denominator + numerator - 1) / numerator
    Int.neg (digitCount (c - 1))

/-- The decimal grid `10^k` set against the value's quarter units `2^(exponent - 2)`: the
point `g · 10^k` compares with `x` quarter units as `g * unit` with `x * quarter`. -/
structure Grid where
  k : Int
  unit : Nat
  quarter : Nat

/-- The grid `10^k`, both sides scaled so that every power is a natural number. -/
def grid (b : Binary) (k : Int) : Grid :=
  let q := b.exponent - 2
  ⟨k, Nat.pow 10 k.toNat * Nat.pow 2 (-q).toNat, Nat.pow 2 q.toNat * Nat.pow 10 (-k).toNat⟩

/-- The next finer grid, `10^(k - 1)`: a factor ten leaves `unit` while `k` is positive,
and joins `quarter` after. -/
def Grid.finer (G : Grid) : Grid :=
  if G.k > 0 then ⟨G.k - 1, G.unit / 10, G.quarter⟩ else ⟨G.k - 1, G.unit, G.quarter * 10⟩

/-- Whether the grid point `g` lies in the interval of reals that read back as the value.
The ends are `lower` and `upper` quarter units, included iff the mantissa is even. -/
def admits (b : Binary) (G : Grid) (g : Nat) : Bool :=
  let lower := if b.narrowBelow then 4 * b.mantissa - 1 else 4 * b.mantissa - 2
  let upper := 4 * b.mantissa + 2
  let atLeast := compare (g * G.unit) (lower * G.quarter)
  let atMost := compare (g * G.unit) (upper * G.quarter)
  if b.mantissa % 2 = 0 then atLeast != .lt && atMost != .gt
  else atLeast == .gt && atMost == .lt

/-- The value's lower neighbour on the grid: the value, `4 · mantissa` quarter units,
divided by the grid's step and rounded down. -/
def floorOn (b : Binary) (G : Grid) : Nat :=
  4 * b.mantissa * G.quarter / G.unit

/-- The nearer of the grid points `lo` and `lo + 1`; a tie is settled by `tie`. -/
def nearer (b : Binary) (tie : Tie) (G : Grid) (lo : Nat) : Nat :=
  -- twice the value is `8 · mantissa` quarter units
  match compare ((2 * lo + 1) * G.unit) (8 * b.mantissa * G.quarter) with
  | .lt => lo + 1
  | .gt => lo
  | .eq =>
    match tie with
    | .toEven => if lo % 2 = 0 then lo else lo + 1
    | .up => lo + 1

/-- The digits on the grid that read back as the value, if the grid has any: the value's
lower neighbour on the grid, its upper neighbour, or the nearer of both. -/
def onGrid? (b : Binary) (tie : Tie) (G : Grid) : Option Nat :=
  let lo := b.floorOn G
  match b.admits G lo, b.admits G (lo + 1) with
  | true, true => some (b.nearer tie G lo)
  | true, false => some lo
  | false, true => some (lo + 1)
  | false, false => none

/-- The first of `n` grids, from `G` finer and finer, that has digits reading back as the
value, with the grid's exponent. -/
def scan (b : Binary) (tie : Tie) : Nat → Grid → Option (Nat × Int)
  | 0, _ => none
  | n + 1, G =>
    match b.onGrid? tie G with
    | some g => some (g, G.k)
    | none => b.scan tie n G.finer

/-- Drops the trailing zeros of a digit string, raising the exponent to match. -/
def trimZeros (digits : Nat) (k : Int) : Nat × Int :=
  if h : digits ≠ 0 ∧ digits % 10 = 0 then trimZeros (digits / 10) (k + 1) else (digits, k)
termination_by digits
decreasing_by omega

/-- The shortest decimal that reads back as the value, the nearest of those if several
have that length, with an exact tie settled by `tie`. Zero is the single digit `0`. -/
def shortest (b : Binary) (tie : Tie) : Scientific :=
  if b.mantissa = 0 then ⟨b.negative, 0, 0⟩
  else
    let lead := leadingExponent (b.mantissa * Nat.pow 2 b.exponent.toNat)
      (Nat.pow 2 (-b.exponent).toNat)
    -- the grids of 1 to 17 significant digits; seventeen digits always hit, and the last
    -- grid's nearer neighbour stands in otherwise
    let (g, k) := match b.scan tie 17 (b.grid lead) with
      | some hit => hit
      | none =>
        let G := b.grid (lead - 16)
        (b.nearer tie G (b.floorOn G), G.k)
    let (digits, exponent) := trimZeros g k
    ⟨b.negative, digits, exponent⟩

end Binary

end Annealing.Decimal
