/-! # Positive numbers on the command line -/
namespace InsertBench.CommandLine

inductive NumberError
  | empty
  | invalidDigit
  | tooLarge
  | outOfRange (n : Nat)
deriving DecidableEq

def NumberError.message : NumberError → String
  | empty => "cannot parse integer from empty string"
  | invalidDigit => "invalid digit found in string"
  | tooLarge => "number too large to fit in target type"
  | outOfRange n => s!"{n} is not in 1..18446744073709551615"

/-- Reads digits after a number that has been read; the first fault from the left decides. -/
def readDigits (n : Nat) : List Char → Except NumberError Nat
  | [] => .ok n
  | c :: rest =>
    if c.isDigit then
      let n := 10 * n + (c.toNat - '0'.toNat)
      if n < UInt64.size then readDigits n rest else .error .tooLarge
    else .error .invalidDigit

/-- A number may have a plus sign before its digits, and zeros. -/
def readNumber (word : String) : Except NumberError Nat :=
  match word.toList with
  | [] => .error .empty
  | '+' :: c :: rest => readDigits 0 (c :: rest)
  | digits => readDigits 0 digits

def readPositive (word : String) : Except NumberError UInt64 := do
  let n ← readNumber word
  if n = 0 then throw (.outOfRange n)
  return n.toUInt64

end InsertBench.CommandLine
