import Annealing.Random.Block

/-!
# A seeded stream of random words

A `Stream` hands out the words of the ChaCha keystream for one key and one stream number,
in order. Words are produced four blocks (64 words) at a time; `index` is the position of
the next unused word, and 64 means the buffer is spent.

A 64-bit draw takes two consecutive words, low word first. When a single word is left in
the buffer, that word is the low half and the first word of the next buffer the high half,
so no word is ever skipped: the words drawn, read in order, are exactly the keystream.

The key comes from a 64-bit seed through eight steps of the PCG32 generator, one key word
per step. Streams with the same seed and different stream numbers share the key and so are
independent keystreams of one cipher key.
-/

namespace Annealing.Random

/-- A position in the keystream of a key and a stream number, with the current buffer. -/
structure Stream where
  key : Vector UInt32 8
  stream : UInt64
  /-- The block counter of the next buffer. -/
  counter : UInt64
  buffer : Vector UInt32 64
  /-- The next unused word of `buffer`; 64 when it is spent. -/
  index : Nat

/-- Rotates a word right by `n` bits. -/
def rotr (x : UInt32) (n : UInt32) : UInt32 :=
  (x >>> n) ||| (x <<< (32 - n))

/-- One step of PCG32: the next state and the word it outputs. -/
def pcgStep (state : UInt64) : UInt64 × UInt32 :=
  let state := state * 6364136223846793005 + 11634580027462260723
  let xorshifted := (((state >>> 18) ^^^ state) >>> 27).toUInt32
  (state, rotr xorshifted (state >>> 59).toUInt32)

/-- The cipher key of a seed: eight PCG32 outputs from the seed as state. -/
def seedKey (seed : UInt64) : Vector UInt32 8 :=
  let (s, w0) := pcgStep seed
  let (s, w1) := pcgStep s
  let (s, w2) := pcgStep s
  let (s, w3) := pcgStep s
  let (s, w4) := pcgStep s
  let (s, w5) := pcgStep s
  let (s, w6) := pcgStep s
  let (_, w7) := pcgStep s
  #v[w0, w1, w2, w3, w4, w5, w6, w7]

namespace Stream

/-- The start of stream `n` of the key derived from `seed`. -/
def ofSeed (seed : UInt64) (n : UInt64 := 0) : Stream :=
  ⟨seedKey seed, n, 0, Vector.replicate 64 0, 64⟩

/-- The next four blocks of the keystream, with the counter moved past them. -/
def refill (g : Stream) : Stream :=
  let at_ (i : UInt64) := block (blockInput g.key (g.counter + i) g.stream)
  { g with buffer := at_ 0 ++ at_ 1 ++ at_ 2 ++ at_ 3, counter := g.counter + 4, index := 0 }

/-- The next word of the keystream. -/
def nextWord (g : Stream) : UInt32 × Stream :=
  if h : g.index < 64 then (g.buffer[g.index], { g with index := g.index + 1 })
  else
    let g := g.refill
    (g.buffer[0], { g with index := 1 })

/-- The next two words of the keystream as one 64-bit word, low word first. -/
def nextWord64 (g : Stream) : UInt64 × Stream :=
  let (lo, g) := g.nextWord
  let (hi, g) := g.nextWord
  (lo.toUInt64 ||| (hi.toUInt64 <<< 32), g)

end Stream

end Annealing.Random
