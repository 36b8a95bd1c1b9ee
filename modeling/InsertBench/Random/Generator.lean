/-! # Pseudo-random words

The xoshiro256++ generator, seeded from one word by SplitMix64. A draw is a computation that takes
words from a generator, in order.
-/
namespace InsertBench.Random

structure Generator where
  s0 : UInt64
  s1 : UInt64
  s2 : UInt64
  s3 : UInt64
deriving DecidableEq

abbrev Draw := StateM Generator

def rotateLeft (w count : UInt64) : UInt64 := w <<< count ||| w >>> (64 - count)

/-- The SplitMix64 output for a state that has advanced already. -/
def mix (z : UInt64) : UInt64 :=
  let z := (z ^^^ z >>> 30) * 0xbf58476d1ce4e5b9
  let z := (z ^^^ z >>> 27) * 0x94d049bb133111eb
  z ^^^ z >>> 31

/-- The four words that SplitMix64 gives from a seed. -/
def seeded (seed : UInt64) : Generator :=
  let step : UInt64 := 0x9e3779b97f4a7c15
  ⟨mix (seed + step), mix (seed + 2 * step), mix (seed + 3 * step), mix (seed + 4 * step)⟩

def word : Draw UInt64 := fun g =>
  let s2 := g.s2 ^^^ g.s0
  let s3 := g.s3 ^^^ g.s1
  (rotateLeft (g.s0 + g.s3) 23 + g.s0,
    ⟨g.s0 ^^^ s3, g.s1 ^^^ s2, s2 ^^^ g.s1 <<< 17, rotateLeft s3 45⟩)

def half : Draw UInt64 := return (← word) >>> 32

/-- A number in `[0, 1)`, from the upper 53 bits of a word. -/
def unit : Draw Float := return ((← word) >>> 11).toFloat / 9007199254740992.0

/-- A number below a bound that is less than `2 ^ 32`. The upper half of a product with the bound is
taken; where its lower half leaves the result open a second draw decides on the carry. -/
def below (bound : UInt64) : Draw UInt64 := do
  let product := (← half) * bound
  let high := product >>> 32
  let low := product % 0x100000000
  if 0x100000000 - bound < low then
    let carry := low + ((← half) * bound) >>> 32
    return if 0x100000000 ≤ carry then high + 1 else high
  return high

end InsertBench.Random
