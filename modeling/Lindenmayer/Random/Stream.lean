import Lindenmayer.Random.ChaCha

/-!
# Random streams

A seed fixes an endless stream of words of sixty-four bits. A stream is a value:
`next` gives a word and the stream after it. Uniform doubles are drawn from `[0, 1)`
and from a symmetric interval, one word each.
-/

namespace Lindenmayer

/-- A stream of random words: the words left of the current block, and where the next
block comes from. -/
structure RandomStream where
  key : Random.Key
  counter : UInt64 := 0
  pending : List UInt64 := []
deriving DecidableEq

namespace Random

/-- The state that follows in the generator that expands seeds. -/
def seedStep (state : UInt64) : UInt64 :=
  state * 6364136223846793005 + 11634580027462260723

/-- The word that a state of that generator gives. -/
def seedWord (state : UInt64) : UInt32 :=
  let x := (((state >>> 18) ^^^ state) >>> 27).toUInt32
  let turn := (state >>> 59).toUInt32
  (x >>> turn) ||| (x <<< ((32 - turn) % 32))

/-- The key that a seed expands to. -/
def Key.ofSeed (seed : UInt64) : Key :=
  let s0 := seedStep seed
  let s1 := seedStep s0
  let s2 := seedStep s1
  let s3 := seedStep s2
  let s4 := seedStep s3
  let s5 := seedStep s4
  let s6 := seedStep s5
  let s7 := seedStep s6
  ⟨seedWord s0, seedWord s1, seedWord s2, seedWord s3,
    seedWord s4, seedWord s5, seedWord s6, seedWord s7⟩

end Random

namespace RandomStream

/-- The stream of a seed. -/
def ofSeed (seed : UInt64) : RandomStream := { key := .ofSeed seed }

/-- The next word, and the stream after it. -/
def next (stream : RandomStream) : UInt64 × RandomStream :=
  match stream.pending with
  | word :: pending => (word, { stream with pending })
  | [] =>
      let b := Random.Block.generate stream.key stream.counter
      (Random.joinWords b.x0 b.x1,
        { stream with
          counter := stream.counter + 1
          pending :=
            [Random.joinWords b.x2 b.x3, Random.joinWords b.x4 b.x5,
              Random.joinWords b.x6 b.x7, Random.joinWords b.x8 b.x9,
              Random.joinWords b.x10 b.x11, Random.joinWords b.x12 b.x13,
              Random.joinWords b.x14 b.x15] })

/-- The number `2 ^ -53` as a double. -/
def unitStep : Float := .ofBits 0x3CA0000000000000

/-- The number `2 ^ -52` as a double. -/
def fractionStep : Float := .ofBits 0x3CB0000000000000

/-- A double drawn uniformly from the multiples of `2 ^ -53` in `[0, 1)`. -/
def unit (stream : RandomStream) : Float × RandomStream :=
  let (word, stream) := stream.next
  ((word >>> 11).toFloat * unitStep, stream)

/-- The largest `scale` not above the given one for which `scale * top + low` stays
within `high`, looking at no more than `fuel` candidates. -/
def fitScale (top low high : Float) : Nat → Float → Float
  | 0, scale => scale
  | fuel + 1, scale =>
      if scale * top + low > high then
        fitScale top low high fuel (.ofBits (scale.toBits - 1))
      else scale

/-- The largest fraction that is drawn. -/
def topFraction : Float := 1.0 - fractionStep

/-- What fractions are scaled by to reach from one end of `[-bound, bound]` to the other. -/
def firstScale (bound : Float) : Float := (bound - -bound) / topFraction

/-- What is drawn from `[-bound, bound]`, for a positive bound that is not too large. Rounding
makes the first scale too large by a few units at most. -/
def symmetric (bound : Float) (stream : RandomStream) : Float × RandomStream :=
  let scale := fitScale topFraction (-bound) bound 64 (firstScale bound)
  let (word, stream) := stream.next
  ((word >>> 12).toFloat * fractionStep * scale + -bound, stream)

/-- A double drawn uniformly from `[-bound, bound]`, for a positive bound. An interval that is
wider than doubles go is refused: to draw from it ends the program. -/
def symmetric? (bound : Float) (stream : RandomStream) : Option (Float × RandomStream) :=
  if (firstScale bound).isFinite then some (stream.symmetric bound) else none

end RandomStream

end Lindenmayer
