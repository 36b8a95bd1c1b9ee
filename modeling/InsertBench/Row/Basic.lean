/-! # Rows -/
namespace InsertBench

/-- A row of the table that is filled. The amount is kept as the bits of its binary64 value, which
tells all values apart, the not-a-numbers too. -/
structure Row where
  id : Int64
  amount : UInt64
  createdAt : Int64
  name : String
  tag : String
deriving DecidableEq

def isNaN (bits : UInt64) : Bool := 0x7ff0000000000000 < bits &&& 0x7fffffffffffffff

/-- Equality of the binary64 values of two bit patterns: a NaN differs from everything, and the two
zeros are equal. -/
def sameValue (a b : UInt64) : Bool :=
  !isNaN a && !isNaN b && (a == b || (a ||| b) <<< 1 == 0)

def Row.same (r s : Row) : Bool :=
  r.id == s.id && sameValue r.amount s.amount && r.createdAt == s.createdAt &&
    r.name == s.name && r.tag == s.tag

end InsertBench
