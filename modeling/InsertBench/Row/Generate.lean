import InsertBench.Random.Alphanumeric
import InsertBench.Random.Rank
import InsertBench.Row.Basic

/-! # The row of a key

A key and a time of creation determine a row: all else is drawn from a generator seeded with the key.
So a batch that is redone writes exactly what the failed attempt tried to write.
-/
namespace InsertBench.Row

def maxTextLength : Nat := 32

/-- Short texts are the most frequent: the length is a rank. -/
def drawText : Random.Draw String := do
  return String.ofList (← Random.characters (← Random.rank maxTextLength))

def drawAmount : Random.Draw UInt64 := do
  return ((← Random.below 1000000).toFloat / 100.0).toBits

def generate (createdAt key : Int64) : Row :=
  let fields : Random.Draw Row := do
    let amount ← drawAmount
    let name ← drawText
    let tag ← drawText
    return ⟨key, amount, createdAt, name, tag⟩
  (fields.run (Random.seeded key.toUInt64)).1

end InsertBench.Row
