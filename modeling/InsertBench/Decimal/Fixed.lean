/-! # Decimals with a fixed number of places

The exact value of a binary64 number, rounded to so many decimal places; a tie goes to the even
neighbour.
-/
namespace InsertBench.Decimal

/-- The nearest integer to a quotient, and the even one of two. -/
def nearest (numerator denominator : Nat) : Nat :=
  let quotient := numerator / denominator
  let twice := 2 * (numerator % denominator)
  if twice < denominator ∨ (twice = denominator ∧ quotient % 2 = 0) then quotient else quotient + 1

/-- Significand and exponent: a finite number without its sign is the first times two to the second. -/
def parts (bits : UInt64) : Nat × Int :=
  let exponent := (bits >>> 52 % 2048).toNat
  let fraction := (bits % 0x10000000000000).toNat
  if exponent = 0 then (fraction, -1074) else (0x10000000000000 + fraction, exponent - 1075)

def scale (places : Nat) : Nat := Nat.pow 10 places

def units (places : Nat) (bits : UInt64) : Nat :=
  let (significand, exponent) := parts bits
  match exponent with
  | .ofNat n => significand * scale places <<< n
  | .negSucc n => nearest (significand * scale places) (1 <<< (n + 1))

/-- Digits and a point for a finite number that is not negative. -/
def fixed (places : Nat) (value : Float) : String :=
  let units := units places value.toBits
  let fraction := toString (units % scale places)
  let zeros := String.ofList (List.replicate (places - fraction.length) '0')
  s!"{units / scale places}.{zeros}{fraction}"

end InsertBench.Decimal
