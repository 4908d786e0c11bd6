import Annealing.Random.Stream

/-!
# Uniform draws from a stream

Each draw consumes whole words from the front of a stream.

* `unit` takes one 64-bit word and keeps its top 53 bits: a multiple of `2^-53` in `[0, 1)`.
* `coin` takes one word and is true when its top bit is set.
* `between lo hi` takes one 64-bit word, keeps its top 52 bits as the fraction of a double
  in `[1, 2)`, subtracts one and scales it onto `[lo, hi)`; rounding may reach `hi`.
* `below lo hi` is an integer in `[lo, hi)` by the widening-multiply method: the high half of
  `word · (hi - lo)` is the draw, except that when the low half falls in the last
  `hi - lo` values a second word may carry one into it. Words are 32 bits wide when `hi`
  fits in 32 bits and 64 bits wide otherwise. An empty range has no draw.
-/

namespace Annealing.Random

namespace Stream

/-- A double in `[0, 1)` from the top 53 bits of a 64-bit word. -/
def unit (g : Stream) : Float × Stream :=
  let (w, g) := g.nextWord64
  ((w >>> 11).toFloat * (1.0 / 9007199254740992.0), g)

/-- A fair coin: the top bit of one word. -/
def coin (g : Stream) : Bool × Stream :=
  let (w, g) := g.nextWord
  (w ≥ 0x80000000, g)

/-- A double in `[lo, hi)`, up to rounding: the top 52 bits of a 64-bit word as the
fraction of a double in `[1, 2)`, less one, times `hi - lo`, plus `lo`. -/
def between (lo hi : Float) (g : Stream) : Float × Stream :=
  let (w, g) := g.nextWord64
  let fraction := Float.ofBits ((w >>> 12) ||| 0x3FF0000000000000) - 1.0
  (fraction * (hi - lo) + lo, g)

/-- The next word of `bits` bits (32 or 64) as a number. -/
def nextOfWidth (bits : Nat) (g : Stream) : Nat × Stream :=
  if bits = 32 then
    let (w, g) := g.nextWord
    (w.toNat, g)
  else
    let (w, g) := g.nextWord64
    (w.toNat, g)

/-- A number in `[0, range)` for `0 < range < 2^bits`, by the widening-multiply method with
one extra word when the low half of the product lands in the last `range` values. -/
def scaled (bits range : Nat) (g : Stream) : Nat × Stream :=
  let (w, g) := nextOfWidth bits g
  let high := w * range / Nat.pow 2 bits
  let low := w * range % Nat.pow 2 bits
  if low > Nat.pow 2 bits - range then
    let (w2, g) := nextOfWidth bits g
    let carry := if low + w2 * range / Nat.pow 2 bits ≥ Nat.pow 2 bits then 1 else 0
    (high + carry, g)
  else (high, g)

/-- A number in `[lo, hi)`, drawn with 32-bit words when `hi < 2^32`; `none` for an empty
range. -/
def below (lo hi : Nat) (g : Stream) : Option (Nat × Stream) :=
  if lo < hi then
    let bits := if hi < Nat.pow 2 32 then 32 else 64
    let (k, g) := scaled bits (hi - lo) g
    some (lo + k, g)
  else none

end Stream

end Annealing.Random
