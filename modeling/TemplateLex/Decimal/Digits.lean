/-! Counting decimal digits, as numbers are written in text: without leading zeros, and zero as the
single digit `0`. -/
namespace TemplateLex

/-- How many decimal digits `n` has; zero has one. -/
def digitCount (n : Nat) : Nat := (Nat.toDigits 10 n).length

example : digitCount 0 = 1 ∧ digitCount 9 = 1 ∧ digitCount 10 = 2 ∧ digitCount 12345 = 5 := by
  decide

end TemplateLex
