/-! Integers that fit a given number of bits. -/

namespace ClosureLint

/-- One more than the largest number of so many bits. -/
def wordBound (bits : Nat) : Nat := Nat.pow 2 bits

/-- Whether an integer fits so many bits, one of which holds the sign. -/
def fitsSigned (bits : Nat) (n : Int) : Bool :=
  decide (-(wordBound (bits - 1) : Int) ≤ n ∧ n < wordBound (bits - 1))

end ClosureLint
