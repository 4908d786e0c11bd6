/-!
# The ChaCha block function with eight rounds

A block is computed from sixteen 32-bit words: four constants, eight key words, a 64-bit
block counter (low word first) and a 64-bit stream number (low word first). Four double
rounds, each a column round and a diagonal round of quarter rounds, scramble a copy of the
input, and the input is added back word by word. Everything wraps modulo `2^32`.
-/

namespace Annealing.Random

/-- Sixteen words of block input or output. -/
abbrev Words := Vector UInt32 16

/-- The words that spell `expand 32-byte k` in little-endian order. -/
def sigma : Vector UInt32 4 := #v[0x61707865, 0x3320646e, 0x79622d32, 0x6b206574]

/-- Rotates a word left by `n` bits. -/
def rotl (x : UInt32) (n : UInt32) : UInt32 :=
  (x <<< n) ||| (x >>> (32 - n))

/-- The quarter round on words `a`, `b`, `c`, `d`. -/
def quarter (s : Words) (a b c d : Fin 16) : Words :=
  let xa := s[a] + s[b]
  let xd := rotl (s[d] ^^^ xa) 16
  let xc := s[c] + xd
  let xb := rotl (s[b] ^^^ xc) 12
  let xa := xa + xb
  let xd := rotl (xd ^^^ xa) 8
  let xc := xc + xd
  let xb := rotl (xb ^^^ xc) 7
  ((((s.set a xa).set b xb).set c xc).set d xd)

/-- A column round followed by a diagonal round. -/
def doubleRound (s : Words) : Words :=
  let s := quarter s 0 4 8 12
  let s := quarter s 1 5 9 13
  let s := quarter s 2 6 10 14
  let s := quarter s 3 7 11 15
  let s := quarter s 0 5 10 15
  let s := quarter s 1 6 11 12
  let s := quarter s 2 7 8 13
  quarter s 3 4 9 14

/-- The block input for a key, a block counter and a stream number. -/
def blockInput (key : Vector UInt32 8) (counter stream : UInt64) : Words :=
  sigma ++ key ++
    #v[counter.toUInt32, (counter >>> 32).toUInt32, stream.toUInt32, (stream >>> 32).toUInt32]

/-- Eight rounds over the input, then the input added back word by word. -/
def block (input : Words) : Words :=
  let mixed := doubleRound (doubleRound (doubleRound (doubleRound input)))
  Vector.zipWith (· + ·) mixed input

end Annealing.Random
