/-!
# The ChaCha block function

A key of eight words and the number of a block give sixteen words. Twelve rounds,
a block counter of sixty-four bits, and the nonce zero.
-/

namespace Lindenmayer.Random

/-- Eight key words. -/
structure Key where
  k0 : UInt32
  k1 : UInt32
  k2 : UInt32
  k3 : UInt32
  k4 : UInt32
  k5 : UInt32
  k6 : UInt32
  k7 : UInt32
deriving DecidableEq

/-- Sixteen words in four rows. -/
structure Block where
  x0 : UInt32
  x1 : UInt32
  x2 : UInt32
  x3 : UInt32
  x4 : UInt32
  x5 : UInt32
  x6 : UInt32
  x7 : UInt32
  x8 : UInt32
  x9 : UInt32
  x10 : UInt32
  x11 : UInt32
  x12 : UInt32
  x13 : UInt32
  x14 : UInt32
  x15 : UInt32
deriving DecidableEq

/-- The word turned left by less than its width. -/
@[inline] def rotateLeft (x n : UInt32) : UInt32 := (x <<< n) ||| (x >>> (32 - n))

/-- Add, exclude and turn, four times. -/
@[inline] def quarterRound (a b c d : UInt32) : UInt32 × UInt32 × UInt32 × UInt32 :=
  let a := a + b
  let d := rotateLeft (d ^^^ a) 16
  let c := c + d
  let b := rotateLeft (b ^^^ c) 12
  let a := a + b
  let d := rotateLeft (d ^^^ a) 8
  let c := c + d
  let b := rotateLeft (b ^^^ c) 7
  (a, b, c, d)

namespace Block

/-- A round on the columns, then one on the diagonals. -/
def doubleRound (s : Block) : Block :=
  let (x0, x4, x8, x12) := quarterRound s.x0 s.x4 s.x8 s.x12
  let (x1, x5, x9, x13) := quarterRound s.x1 s.x5 s.x9 s.x13
  let (x2, x6, x10, x14) := quarterRound s.x2 s.x6 s.x10 s.x14
  let (x3, x7, x11, x15) := quarterRound s.x3 s.x7 s.x11 s.x15
  let (x0, x5, x10, x15) := quarterRound x0 x5 x10 x15
  let (x1, x6, x11, x12) := quarterRound x1 x6 x11 x12
  let (x2, x7, x8, x13) := quarterRound x2 x7 x8 x13
  let (x3, x4, x9, x14) := quarterRound x3 x4 x9 x14
  ⟨x0, x1, x2, x3, x4, x5, x6, x7, x8, x9, x10, x11, x12, x13, x14, x15⟩

/-- Word-wise sum. -/
def add (s t : Block) : Block :=
  ⟨s.x0 + t.x0, s.x1 + t.x1, s.x2 + t.x2, s.x3 + t.x3,
    s.x4 + t.x4, s.x5 + t.x5, s.x6 + t.x6, s.x7 + t.x7,
    s.x8 + t.x8, s.x9 + t.x9, s.x10 + t.x10, s.x11 + t.x11,
    s.x12 + t.x12, s.x13 + t.x13, s.x14 + t.x14, s.x15 + t.x15⟩

/-- The block before the rounds: four constants, the key, the counter, the nonce. -/
def initial (key : Key) (counter : UInt64) : Block :=
  ⟨0x61707865, 0x3320646e, 0x79622d32, 0x6b206574,
    key.k0, key.k1, key.k2, key.k3, key.k4, key.k5, key.k6, key.k7,
    counter.toUInt32, (counter >>> 32).toUInt32, 0, 0⟩

/-- Twelve rounds, and the block before them added. -/
def generate (key : Key) (counter : UInt64) : Block :=
  let start := initial key counter
  start.doubleRound.doubleRound.doubleRound.doubleRound.doubleRound.doubleRound.add start

end Block

/-- Two words as one, the low one first. -/
@[inline] def joinWords (low high : UInt32) : UInt64 := low.toUInt64 ||| (high.toUInt64 <<< 32)

end Lindenmayer.Random
