import TemplateLex.Decimal.Binary64

/-! Reading decimals: the binary64 value nearest to a nonnegative rational, a tie going to the even
significand, and infinity once the rounded value passes the largest finite one. The rational is
scaled by a power of two so that its integer part has 53 bits (fewer below the normal range); the
quotient is rounded as a natural number, and a carry to `2^53` moves to the next binade. -/
namespace TemplateLex

/-- A decimal number, `digits * 10^exponent`. -/
structure Decimal where
  digits : Nat
  exponent : Int
deriving DecidableEq, Repr

/-- `num / den` rounded to a natural number, a tie going to the even neighbour. -/
def roundHalfEven (num den : Nat) : Nat :=
  let q := num / den
  let r := num % den
  if 2 * r < den then q
  else if den < 2 * r then q + 1
  else if q % 2 = 0 then q else q + 1

/-- Whether `2^k ≤ num / den`. -/
def powTwoLe (k : Int) (num den : Nat) : Bool :=
  decide (den * Nat.pow 2 k.toNat ≤ num * Nat.pow 2 (-k).toNat)

/-- The greatest `k` with `2^k ≤ num / den`, for positive `num` and `den`. The difference of the
binary lengths is that `k` or one more. -/
def floorLog2 (num den : Nat) : Int :=
  let b := (num.log2 : Int) - den.log2
  if powTwoLe b num den then b else b - 1

namespace Binary64

/-- The binary64 value nearest to `num / den`, for positive `den`. -/
def nearest (num den : Nat) : Binary64 :=
  if num = 0 then zero
  else
    let q := max (floorLog2 num den - 52) (-1074)
    let m := roundHalfEven (num * Nat.pow 2 (-q).toNat) (den * Nat.pow 2 q.toNat)
    let (m, q) := if m = Nat.pow 2 53 then (Nat.pow 2 52, q + 1) else (m, q)
    if 971 < q then infinity else pack m q

end Binary64

def Decimal.toBinary64 (d : Decimal) : Binary64 :=
  Binary64.nearest (d.digits * Nat.pow 10 d.exponent.toNat) (Nat.pow 10 (-d.exponent).toNat)

example : (Decimal.toBinary64 ⟨1, 0⟩).bits = 0x3FF0000000000000 := by decide
example : (Decimal.toBinary64 ⟨105, -1⟩).bits = 0x4025000000000000 := by decide
example : (Decimal.toBinary64 ⟨9007199254740993, 0⟩).bits = 0x4340000000000000 := by decide

end TemplateLex
