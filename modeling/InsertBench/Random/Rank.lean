import InsertBench.Random.Generator

/-! # Ranks by Zipf's law

A rank from 1 to a largest one, with probability inversely proportional to it, by rejection: a
proposal is drawn from the hat `1, 1/x` by inverting its area, and accepted with the ratio of the law
to the hat.
-/
namespace InsertBench.Random

def rankTrial (most : Float) : Draw (Option Float) := do
  let area := (← unit) * (1.0 + most.log)
  let inverse := if area ≤ 1.0 then area else (area - 1.0).exp
  let rank := (inverse + 1.0).floor
  let ratio := if 1.0 < rank then 1.0 / rank * inverse else 1.0 / rank
  return if (← unit) < ratio then some rank else none

/-- Repeats trials until one is accepted. Neither the limit on the trials nor the clamp of the rank is part
of the sampling, which tries for as long as it takes and returns what was accepted: an area below
`1 + log most` has its rank between 1 and `most`, and a trial fails with a chance below one half, so a run
of failures that exhausts the supply does not come up. -/
def rankWithin (most : Nat) : Nat → Draw Nat
  | 0 => return 1
  | trials + 1 => do
    match ← rankTrial most.toFloat with
    | some rank => return max 1 (min most rank.toUInt64.toNat)
    | none => rankWithin most trials

def rank (most : Nat) : Draw Nat := rankWithin most 4096

end InsertBench.Random
