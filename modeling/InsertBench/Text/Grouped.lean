/-! # Grouped decimals

The decimal digits of a number in groups of three, counted from the right and joined by underscores.
-/
namespace InsertBench.Text

/-- Digits come least significant first, and so do the groups. -/
def groupsOfThree : List Char → List Char
  | a :: b :: c :: d :: rest => a :: b :: c :: '_' :: groupsOfThree (d :: rest)
  | digits => digits

def grouped (n : Nat) : String :=
  String.ofList (groupsOfThree (Nat.toDigits 10 n).reverse).reverse

end InsertBench.Text
