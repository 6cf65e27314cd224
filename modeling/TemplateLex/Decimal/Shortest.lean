import TemplateLex.Decimal.Nearest
import TemplateLex.Decimal.Digits

/-! Writing binary64 values with the fewest digits. The search tries grids of one, two, three
significant digits and stops at the first grid where a neighbour of the value lies in its rounding
interval; the nearer neighbour wins, a tie going up. Every comparison is exact, over naturals. -/
namespace TemplateLex

/-- Compares `a * 10^i` with `n * 2^j`, exactly. -/
def compareScaled (a : Nat) (i : Int) (n : Nat) (j : Int) : Ordering :=
  compare (a * Nat.pow 10 i.toNat * Nat.pow 2 (-j).toNat)
    (n * Nat.pow 2 j.toNat * Nat.pow 10 (-i).toNat)

/-- The rounding interval of a positive finite value `m * 2^q`, in quarters of the last place. -/
structure Interval where
  center : Nat
  low : Nat
  high : Nat
  /-- The exponent of a quarter of the last place. -/
  scale : Int
  /-- Whether the ends read back to the value. -/
  closed : Bool
deriving DecidableEq, Repr

namespace Binary64

/-- The interval of reals that read back to a positive finite value. -/
def interval (x : Binary64) : Interval :=
  let m := x.significand
  let narrow := x.fraction = 0 ∧ 1 < x.exponentField
  { center := 4 * m
    low := if narrow then 4 * m - 1 else 4 * m - 2
    high := 4 * m + 2
    scale := x.exponent - 2
    closed := m % 2 = 0 }

end Binary64

def Interval.contains (r : Interval) (a : Nat) (i : Int) : Bool :=
  let lo := compareScaled a i r.low r.scale
  let hi := compareScaled a i r.high r.scale
  (lo == .gt || (r.closed && lo == .eq)) && (hi == .lt || (r.closed && hi == .eq))

/-- The least `k` with `m * 2^q < 10^k`, for positive `m`: the exponent just above the leading
digit. -/
def leadingExponent (m : Nat) (q : Int) : Int :=
  let whole := m * Nat.pow 2 q.toNat / Nat.pow 2 (-q).toNat
  if 0 < whole then digitCount whole
  else 1 - (digitCount ((Nat.pow 2 (-q).toNat - 1) / m) : Int)

/-- On the grid `10^i`, the neighbour of `m * 2^q` from below: `⌊m * 2^q / 10^i⌋`. -/
def gridFloor (m : Nat) (q : Int) (i : Int) : Nat :=
  m * Nat.pow 2 q.toNat * Nat.pow 10 (-i).toNat / (Nat.pow 2 (-q).toNat * Nat.pow 10 i.toNat)

/-- Which of the two neighbours `a * 10^i` and `(a + 1) * 10^i` of `m * 2^q` is nearer; an exact
tie goes to the upper one. -/
def upperNearer (m : Nat) (q : Int) (a : Nat) (i : Int) : Bool :=
  compareScaled (2 * a + 1) i (2 * m) q != .gt

/-- Drops trailing zeros of the digits into the exponent. -/
def Decimal.trim (d : Decimal) : Decimal :=
  go d.digits d.exponent (digitCount d.digits)
where
  go (n : Nat) (e : Int) : Nat → Decimal
    | 0 => ⟨n, e⟩
    | fuel + 1 => if n ≠ 0 ∧ n % 10 = 0 then go (n / 10) (e + 1) fuel else ⟨n, e⟩

namespace Binary64

def exactDecimal (m : Nat) (q : Int) : Decimal :=
  if 0 ≤ q then ⟨m * Nat.pow 2 q.toNat, 0⟩ else ⟨m * Nat.pow 5 (-q).toNat, q⟩

/-- The first grid, among `10^(k-n), 10^(k-n-1), …` for `fuel` steps, on which a neighbour of
`m * 2^q` lies in the interval `r`. -/
def searchGrids (r : Interval) (m : Nat) (q : Int) (k : Int) : Nat → Nat → Option Decimal
  | _, 0 => none
  | n, fuel + 1 =>
    let i := k - n
    let a := gridFloor m q i
    let down := r.contains a i
    let up := r.contains (a + 1) i
    if down && up then
      some (if upperNearer m q a i then ⟨a + 1, i⟩ else ⟨a, i⟩)
    else if up then some ⟨a + 1, i⟩
    else if down then some ⟨a, i⟩
    else searchGrids r m q k (n + 1) fuel

/-- The fewest significant digits that read back to a positive finite value; the nearer candidate
of that length, a tie going up. Seventeen digits always suffice; the exact value stands behind
the search. -/
def shortest (x : Binary64) : Decimal :=
  let m := x.significand
  let q := x.exponent
  let found := (searchGrids x.interval m q (leadingExponent m q) 1 17).getD (exactDecimal m q)
  found.trim

example : shortest ⟨0x3FB999999999999A⟩ = ⟨1, -1⟩ := by decide
example : shortest ⟨0x3FD3333333333334⟩ = ⟨30000000000000004, -17⟩ := by decide
example : shortest ⟨1⟩ = ⟨5, -324⟩ := by decide +kernel

end Binary64

end TemplateLex
