import TemplateLex.Decimal.Shortest

/-! Numbers in positional notation, never with an exponent: the shortest digits that read back,
padded with zeros where they are missing, and no fraction part for a whole number. Zero is `0`,
infinity `inf`, a negative value has a minus sign, and NaN is `NaN`. -/
namespace TemplateLex

/-- The digits of `d` laid out around the decimal point, with no exponent. -/
def Decimal.positional (d : Decimal) : String :=
  let ds := Nat.toDigits 10 d.digits
  if 0 ≤ d.exponent then
    String.ofList (ds ++ List.replicate d.exponent.toNat '0')
  else
    let point := (ds.length : Int) + d.exponent
    if 0 < point then
      String.ofList (ds.take point.toNat ++ '.' :: ds.drop point.toNat)
    else
      String.ofList ('0' :: '.' :: List.replicate (-point).toNat '0' ++ ds)

/-- The text of the magnitude of a value that is a number: `inf`, `0`, or its shortest digits
laid out positionally. -/
def Binary64.magnitudeText (x : Binary64) : String :=
  if x.isFinite = false then "inf"
  else if x.significand = 0 then "0"
  else x.shortest.positional

/-- The text of a binary64 value: `NaN`, or the text of its magnitude after a minus sign when the
sign bit is set. -/
def Binary64.positional (x : Binary64) : String :=
  if x.isNaN then "NaN"
  else (if x.signBit then "-" else "") ++ x.magnitudeText

theorem Binary64.positional_of_number {x : Binary64} (number : x.isNaN = false)
    (sign : x.signBit = false) : x.positional = x.magnitudeText := by
  simp [positional, number, sign]

theorem Binary64.positional_of_not_finite {x : Binary64} (infinite : x.isFinite = false)
    (sign : x.signBit = false) : x.positional = if x.isNaN then "NaN" else "inf" := by
  cases nan : x.isNaN <;> simp [positional, magnitudeText, nan, sign, infinite]

example : (Decimal.mk 5 (-3)).positional = "0.005" := by decide
example : (Decimal.mk 105 (-1)).positional = "10.5" := by decide
example : (Decimal.mk 12 3).positional = "12000" := by decide
example : Binary64.positional ⟨0xFFF0000000000000⟩ = "-inf" ∧
    Binary64.positional ⟨0x7FF8000000000000⟩ = "NaN" := by decide

end TemplateLex
