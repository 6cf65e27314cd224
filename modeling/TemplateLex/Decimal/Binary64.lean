/-! Binary64 values kept as their bit patterns. A finite value is `m * 2^q`, read off the exponent
and fraction fields: a zero exponent field gives `q = -1074` and no hidden bit, every other one adds
the hidden bit `2^52`. This module holds the fields, that reading, the inverse packing and the
hexadecimal text of a pattern. -/
namespace TemplateLex

/-- A binary64 value, kept as its bit pattern. -/
structure Binary64 where
  bits : UInt64
deriving DecidableEq, Repr

namespace Binary64

def zero : Binary64 := ⟨0⟩

def infinity : Binary64 := ⟨0x7FF0000000000000⟩

def exponentField (x : Binary64) : Nat := x.bits.toNat / Nat.pow 2 52 % Nat.pow 2 11

def fraction (x : Binary64) : Nat := x.bits.toNat % Nat.pow 2 52

def signBit (x : Binary64) : Bool := decide (Nat.pow 2 63 ≤ x.bits.toNat)

def isFinite (x : Binary64) : Bool := decide (x.exponentField < 2047)

def isNaN (x : Binary64) : Bool := !x.isFinite && x.fraction != 0

theorem isNaN_of_isFinite {x : Binary64} (finite : x.isFinite = true) : x.isNaN = false := by
  simp [isNaN, finite]

/-- The significand `m` of a finite value `m * 2^q`. -/
def significand (x : Binary64) : Nat :=
  if x.exponentField = 0 then x.fraction else x.fraction + Nat.pow 2 52

/-- The exponent `q` of the last place of a finite value `m * 2^q`. -/
def exponent (x : Binary64) : Int :=
  if x.exponentField = 0 then -1074 else (x.exponentField : Int) - 1075

/-- The nonnegative value `m * 2^q`, for `m < 2^53` that is at least `2^52` unless `q = -1074`,
and `q ≤ 971`. -/
def pack (m : Nat) (q : Int) : Binary64 :=
  if m < Nat.pow 2 52 then ⟨m.toUInt64⟩
  else ⟨((q + 1075).toNat * Nat.pow 2 52 + (m - Nat.pow 2 52)).toUInt64⟩

/-- The bit pattern as sixteen lowercase hexadecimal digits. -/
def hex (x : Binary64) : String :=
  let ds := Nat.toDigits 16 x.bits.toNat
  String.ofList (List.replicate (16 - ds.length) '0' ++ ds)

example : hex infinity = "7ff0000000000000" := by decide
example : (pack (Nat.pow 2 52) 0).significand = Nat.pow 2 52 ∧
    (pack (Nat.pow 2 52) 0).exponent = 0 := by
  decide

end Binary64

end TemplateLex
