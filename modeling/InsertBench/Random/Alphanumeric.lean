import InsertBench.Random.Generator

/-! # Letters and digits

Characters drawn evenly from the 62 letters and digits: six bits are taken, and taken again if they
stand for none of them.
-/
namespace InsertBench.Random

def alphabet : List Char := "ABCDEFGHIJKLMNOPQRSTUVWXYZabcdefghijklmnopqrstuvwxyz0123456789".toList

/-- Repeats draws of six bits until they number a character. The limit on the draws is not part of the
sampling, which draws for as long as it takes; thirty-one of thirty-two draws number a character, so a run
that exhausts the supply does not come up. -/
def characterWithin : Nat → Draw Char
  | 0 => return 'A'
  | draws + 1 => do
    match alphabet[((← half) >>> 26).toNat]? with
    | some c => return c
    | none => characterWithin draws

def characters : Nat → Draw (List Char)
  | 0 => return []
  | length + 1 => do
    let c ← characterWithin 4096
    return c :: (← characters length)

end InsertBench.Random
