import TemplateLex.Decimal.Shortest
import Mathlib.Algebra.Order.Field.Power
import Mathlib.Tactic.Linarith
import Mathlib.Tactic.FieldSimp
import Mathlib.Tactic.Positivity
import Mathlib.Tactic.Ring
import Mathlib.Tactic.GCongr

/-! Reading a decimal rounds to the nearest binary64 value: a rational number of the rounding interval
of a positive finite value reads back as that value, the rounding carrying into the next power of
two just below one. -/
namespace TemplateLex

/-- `v` lies between `lo` and `hi`; the ends count when `closed`. -/
def Between (closed : Bool) (lo hi v : ℚ) : Prop :=
  (lo < v ∨ closed = true ∧ lo = v) ∧ (v < hi ∨ closed = true ∧ v = hi)

namespace Between

variable {closed : Bool} {lo hi v : ℚ}

theorem lo_le (between : Between closed lo hi v) : lo ≤ v := by
  rcases between.1 with below | ⟨-, rfl⟩
  · exact below.le
  · exact le_rfl

theorem le_hi (between : Between closed lo hi v) : v ≤ hi := by
  rcases between.2 with above | ⟨-, rfl⟩
  · exact above.le
  · exact le_rfl

theorem closed_of_lo_eq (between : Between closed lo hi v) (tight : lo = v) : closed = true := by
  rcases between.1 with below | ⟨closed, -⟩
  · exact absurd tight below.ne
  · exact closed

theorem closed_of_eq_hi (between : Between closed lo hi v) (tight : v = hi) : closed = true := by
  rcases between.2 with above | ⟨closed, -⟩
  · exact absurd tight above.ne
  · exact closed

theorem widen {lo' hi' : ℚ} (between : Between closed lo hi v) (low : lo' ≤ lo) (high : hi ≤ hi') :
    Between closed lo' hi' v := by
  constructor
  · rcases low.lt_or_eq with below | rfl
    · exact .inl (lt_of_lt_of_le below between.lo_le)
    · exact between.1
  · rcases high.lt_or_eq with above | rfl
    · exact .inl (lt_of_le_of_lt between.le_hi above)
    · exact between.2

end Between

theorem natPow_div_natPow (b : ℕ) (k : ℤ) :
    ((Nat.pow b k.toNat : ℕ) : ℚ) / (Nat.pow b (-k).toNat : ℕ) = (b : ℚ) ^ k := by
  rcases Int.eq_nat_or_neg k with ⟨n, rfl | rfl⟩
  · simp [Nat.pow_eq]
  · simp [Nat.pow_eq, zpow_neg, div_eq_inv_mul]

theorem natPow_pos {b : ℕ} (pos : 0 < b) (n : ℕ) : (0 : ℚ) < (Nat.pow b n : ℕ) := by
  rw [Nat.pow_eq]
  exact_mod_cast pow_pos pos n

theorem scaled_div (num den : ℕ) (q : ℤ) :
    ((num * Nat.pow 2 (-q).toNat : ℕ) : ℚ) / ((den * Nat.pow 2 q.toNat : ℕ) : ℚ) =
      (num / den : ℚ) / 2 ^ q := by
  have power := natPow_div_natPow 2 q
  have above := natPow_pos two_pos q.toNat
  have below := natPow_pos two_pos (-q).toNat
  push_cast at power ⊢
  rw [← power]
  field_simp

section Rounding

/-- `roundHalfEven` rounds to a nearest integer, a tie to the even one. -/
theorem roundHalfEven_spec (N : ℕ) {D : ℕ} (pos : 0 < D) :
    Between (decide (roundHalfEven N D % 2 = 0)) (roundHalfEven N D - 1 / 2)
      (roundHalfEven N D + 1 / 2) (N / D) := by
  have hD : (0 : ℚ) < D := by exact_mod_cast pos
  -- the quotient is the whole part and the remainder over the divisor the part below one
  have split : (N / D : ℚ) = (N / D : ℕ) + (N % D : ℕ) / D := by
    have whole := Nat.div_add_mod N D
    field_simp
    exact_mod_cast whole.symm
  have fracNonneg : (0 : ℚ) ≤ (N % D : ℕ) / D := by positivity
  have fracLt : ((N % D : ℕ) : ℚ) / D < 1 := by
    rw [div_lt_one hD]
    exact_mod_cast Nat.mod_lt N pos
  have half : ((N % D : ℕ) : ℚ) / D < 1 / 2 ↔ 2 * (N % D) < D := by
    rw [div_lt_iff₀ hD]
    constructor <;> intro h
    · exact_mod_cast (by linarith : (2 : ℚ) * (N % D : ℕ) < D)
    · have : (2 * (N % D : ℕ) : ℚ) < D := by exact_mod_cast h
      linarith
  have overHalf : 1 / 2 < ((N % D : ℕ) : ℚ) / D ↔ D < 2 * (N % D) := by
    rw [lt_div_iff₀ hD]
    constructor <;> intro h
    · exact_mod_cast (by linarith : (D : ℚ) < 2 * (N % D : ℕ))
    · have : (D : ℚ) < (2 * (N % D) : ℕ) := by exact_mod_cast h
      push_cast at this
      linarith
  have tie : 2 * (N % D) = D → ((N % D : ℕ) : ℚ) / D = 1 / 2 := by
    intro exact
    rw [div_eq_iff hD.ne']
    have : ((2 * (N % D) : ℕ) : ℚ) = D := by exact_mod_cast exact
    push_cast at this
    linarith
  unfold roundHalfEven
  dsimp only
  rw [split]
  split_ifs with below above even
  · exact ⟨.inl (by linarith), .inl (by linarith [half.mpr below])⟩
  · push_cast
    exact ⟨.inl (by linarith [overHalf.mpr above]), .inl (by linarith)⟩
  · have atHalf : ((N % D : ℕ) : ℚ) / D = 1 / 2 := tie (by omega)
    exact ⟨.inl (by linarith), .inr ⟨by simpa using even, by rw [atHalf]⟩⟩
  · have atHalf : ((N % D : ℕ) : ℚ) / D = 1 / 2 := tie (by omega)
    push_cast
    exact ⟨.inr ⟨by simp; omega, by linarith [atHalf]⟩, .inl (by linarith)⟩

theorem roundHalfEven_eq {N D m : ℕ} (pos : 0 < D)
    (near : Between (decide (m % 2 = 0)) (m - 1 / 2) (m + 1 / 2) (N / D)) :
    roundHalfEven N D = m := by
  have spec := roundHalfEven_spec N pos
  set M := roundHalfEven N D
  have up : m ≤ M + 1 := by
    have : (m : ℚ) ≤ M + 1 := by linarith [near.lo_le, spec.le_hi]
    exact_mod_cast this
  have down : M ≤ m + 1 := by
    have : (M : ℚ) ≤ m + 1 := by linarith [spec.lo_le, near.le_hi]
    exact_mod_cast this
  by_contra differ
  -- two neighbours hold the quotient only at their common end, and then both would be even
  rcases (by omega : m = M + 1 ∨ M = m + 1) with above | below
  · have cast : (m : ℚ) = M + 1 := by exact_mod_cast above
    have atEnd : (N / D : ℚ) = M + 1 / 2 := le_antisymm spec.le_hi (by linarith [near.lo_le])
    have evenM := spec.closed_of_eq_hi atEnd
    have evenm := near.closed_of_lo_eq (by linarith)
    simp only [decide_eq_true_eq] at evenM evenm
    omega
  · have cast : (M : ℚ) = m + 1 := by exact_mod_cast below
    have atEnd : (N / D : ℚ) = m + 1 / 2 := le_antisymm near.le_hi (by linarith [spec.lo_le])
    have evenm := near.closed_of_eq_hi atEnd
    have evenM := spec.closed_of_lo_eq (by linarith)
    simp only [decide_eq_true_eq] at evenM evenm
    omega

end Rounding

section Binade

theorem powTwoLe_iff (k : ℤ) (num : ℕ) {den : ℕ} (pos : 0 < den) :
    powTwoLe k num den = true ↔ (2 : ℚ) ^ k ≤ num / den := by
  have power := natPow_div_natPow 2 k
  have above := natPow_pos two_pos k.toNat
  have below := natPow_pos two_pos (-k).toNat
  have hD : (0 : ℚ) < den := by exact_mod_cast pos
  push_cast at power
  rw [powTwoLe, decide_eq_true_iff, ← power, div_le_div_iff₀ below hD]
  constructor <;> intro h
  · rw [mul_comm]
    exact_mod_cast h
  · rw [mul_comm] at h
    exact_mod_cast h

/-- `floorLog2` gives the binade: the power of two at or below the quotient, and the next one above
it. -/
theorem floorLog2_spec {num den : ℕ} (hn : 0 < num) (hd : 0 < den) :
    (2 : ℚ) ^ floorLog2 num den ≤ num / den ∧ (num / den : ℚ) < 2 ^ (floorLog2 num den + 1) := by
  set a := num.log2
  set b := den.log2
  have hD : (0 : ℚ) < den := by exact_mod_cast hd
  have numLo : (2 : ℚ) ^ a ≤ num := by exact_mod_cast Nat.log2_self_le hn.ne'
  have numHi : (num : ℚ) < 2 ^ (a + 1) := by exact_mod_cast Nat.lt_log2_self
  have denLo : (2 : ℚ) ^ b ≤ den := by exact_mod_cast Nat.log2_self_le hd.ne'
  have denHi : (den : ℚ) < 2 ^ (b + 1) := by exact_mod_cast Nat.lt_log2_self
  have upper : (num / den : ℚ) < 2 ^ ((a : ℤ) - b + 1) := by
    rw [sub_add_eq_add_sub, zpow_sub₀ two_ne_zero, div_lt_div_iff₀ hD (by positivity)]
    have : (2 : ℚ) ^ ((a : ℤ) + 1) = 2 ^ (a + 1) := by exact_mod_cast zpow_natCast (2 : ℚ) (a + 1)
    rw [this, zpow_natCast]
    have widen : (num : ℚ) * 2 ^ b ≤ num * den := mul_le_mul_of_nonneg_left denLo (by positivity)
    have grow : (num : ℚ) * den < 2 ^ (a + 1) * den := mul_lt_mul_of_pos_right numHi hD
    linarith
  have lower : (2 : ℚ) ^ ((a : ℤ) - b - 1) < num / den := by
    rw [sub_sub, zpow_sub₀ two_ne_zero, div_lt_div_iff₀ (by positivity) hD]
    have : (2 : ℚ) ^ ((b : ℤ) + 1) = 2 ^ (b + 1) := by exact_mod_cast zpow_natCast (2 : ℚ) (b + 1)
    rw [this, zpow_natCast]
    have numPos : (0 : ℚ) < num := by exact_mod_cast hn
    have widen : (2 : ℚ) ^ a * den ≤ num * den := mul_le_mul_of_nonneg_right numLo hD.le
    have grow : (num : ℚ) * den < num * 2 ^ (b + 1) := mul_lt_mul_of_pos_left denHi numPos
    linarith
  unfold floorLog2
  dsimp only
  split
  · rename_i le
    exact ⟨(powTwoLe_iff _ num hd).mp le, upper⟩
  · rename_i notLe
    rw [powTwoLe_iff _ num hd, not_le] at notLe
    exact ⟨lower.le, by simpa using notLe⟩

theorem floorLog2_lt {num den : ℕ} (hn : 0 < num) (hd : 0 < den) {j : ℤ}
    (below : (num / den : ℚ) < 2 ^ j) : floorLog2 num den < j :=
  (zpow_lt_zpow_iff_right₀ one_lt_two).mp (lt_of_le_of_lt (floorLog2_spec hn hd).1 below)

theorem le_floorLog2 {num den : ℕ} (hn : 0 < num) (hd : 0 < den) {j : ℤ}
    (above : (2 : ℚ) ^ j ≤ num / den) : j ≤ floorLog2 num den :=
  Int.lt_add_one_iff.mp
    ((zpow_lt_zpow_iff_right₀ one_lt_two).mp (lt_of_le_of_lt above (floorLog2_spec hn hd).2))

end Binade

namespace Between

variable {closed : Bool} {lo hi v s : ℚ}

theorem unscale (between : Between closed (lo * s) (hi * s) v) (pos : 0 < s) :
    Between closed lo hi (v / s) := by
  obtain ⟨low, high⟩ := between
  constructor
  · rcases low with below | ⟨closed, tight⟩
    · exact .inl ((lt_div_iff₀ pos).mpr below)
    · exact .inr ⟨closed, (eq_div_iff pos.ne').mpr tight⟩
  · rcases high with above | ⟨closed, tight⟩
    · exact .inl ((div_lt_iff₀ pos).mpr above)
    · exact .inr ⟨closed, (div_eq_iff pos.ne').mpr tight⟩

end Between

theorem roundHalfEven_scaled {num den m : ℕ} (hd : 0 < den) {p : ℤ}
    (near : Between (decide (m % 2 = 0)) ((m - 1 / 2) * 2 ^ p) ((m + 1 / 2) * 2 ^ p) (num / den)) :
    roundHalfEven (num * Nat.pow 2 (-p).toNat) (den * Nat.pow 2 p.toNat) = m := by
  apply roundHalfEven_eq (Nat.mul_pos hd (by rw [Nat.pow_eq]; positivity))
  rw [scaled_div]
  exact near.unscale (by positivity)

theorem floorLog2_eq {num den : ℕ} (hn : 0 < num) (hd : 0 < den) {k : ℤ}
    (above : (2 : ℚ) ^ k ≤ num / den) (below : (num / den : ℚ) < 2 ^ (k + 1)) :
    floorLog2 num den = k := by
  have low := le_floorLog2 hn hd above
  have high := floorLog2_lt hn hd below
  omega

/-- The reals of a rounding interval: its ends are quarters of the last place. -/
def Interval.Holds (r : Interval) (v : ℚ) : Prop :=
  Between r.closed (r.low * 2 ^ r.scale) (r.high * 2 ^ r.scale) v

namespace Binary64

variable {x : Binary64}

theorem fraction_lt (x : Binary64) : x.fraction < 2 ^ 52 := by
  simpa [fraction, Nat.pow_eq] using Nat.mod_lt x.bits.toNat (by decide : 0 < 2 ^ 52)

theorem bits_eq (sign : x.signBit = false) :
    x.bits.toNat = x.exponentField * 2 ^ 52 + x.fraction := by
  have small : x.bits.toNat < 2 ^ 63 := by simpa [signBit, Nat.pow_eq] using sign
  simp only [exponentField, fraction, Nat.pow_eq]
  rw [Nat.mod_eq_of_lt (by omega : x.bits.toNat / 2 ^ 52 < 2 ^ 11)]
  omega

theorem significand_lt (x : Binary64) : x.significand < 2 ^ 53 := by
  have small := fraction_lt x
  unfold significand
  split <;> simp [Nat.pow_eq] <;> omega

theorem le_significand (normal : x.exponentField ≠ 0) : 2 ^ 52 ≤ x.significand := by
  simp [significand, normal, Nat.pow_eq]

theorem exponent_ge (x : Binary64) : -1074 ≤ x.exponent := by
  unfold exponent
  split <;> omega

theorem exponent_le (finite : x.isFinite = true) : x.exponent ≤ 971 := by
  have field : x.exponentField < 2047 := by simpa [isFinite] using finite
  unfold exponent
  split <;> omega

theorem pack_significand (sign : x.signBit = false) : pack x.significand x.exponent = x := by
  have layout := bits_eq sign
  have small := fraction_lt x
  have bitsBack : x.bits.toNat.toUInt64 = x.bits := UInt64.ofNat_toNat
  by_cases zero : x.exponentField = 0
  · have below : x.significand < Nat.pow 2 52 := by
      simpa [significand, zero, Nat.pow_eq] using small
    have whole : x.significand = x.bits.toNat := by
      simp only [significand, zero, if_true]
      omega
    rw [pack, if_pos below, whole, bitsBack]
  · have notBelow : ¬x.significand < Nat.pow 2 52 := by simp [significand, zero, Nat.pow_eq]
    have whole : (x.exponent + 1075).toNat * Nat.pow 2 52 + (x.significand - Nat.pow 2 52) =
        x.bits.toNat := by
      simp only [exponent, significand, zero, if_false, Nat.pow_eq]
      omega
    rw [pack, if_neg notBelow, whole, bitsBack]

theorem scale_quarter (x : Binary64) : (2 : ℚ) ^ x.interval.scale = 2 ^ x.exponent / 4 := by
  rw [show x.interval.scale = x.exponent - 2 from rfl, zpow_sub₀ two_ne_zero]
  norm_num

theorem holds_window {v : ℚ} (pos : 0 < x.significand) (inside : x.interval.Holds v) :
    Between (decide (x.significand % 2 = 0)) ((x.significand - 1 / 2) * 2 ^ x.exponent)
      ((x.significand + 1 / 2) * 2 ^ x.exponent) v := by
  have low : (4 * (x.significand : ℚ) - 2) ≤ (x.interval.low : ℚ) := by
    simp only [interval]
    split_ifs <;> push_cast [Nat.cast_sub (by omega : 1 ≤ 4 * x.significand),
      Nat.cast_sub (by omega : 2 ≤ 4 * x.significand)] <;> linarith
  have high : (x.interval.high : ℚ) = 4 * x.significand + 2 := by simp [interval]
  have closed : x.interval.closed = decide (x.significand % 2 = 0) := by simp [interval]
  unfold Interval.Holds at inside
  rw [closed, scale_quarter, high] at inside
  refine inside.widen ?_ (le_of_eq (by ring))
  calc ((x.significand : ℚ) - 1 / 2) * 2 ^ x.exponent
      = (4 * (x.significand : ℚ) - 2) * (2 ^ x.exponent / 4) := by ring
    _ ≤ (x.interval.low : ℚ) * (2 ^ x.exponent / 4) := by gcongr

theorem narrow_low {v : ℚ} (narrow : x.fraction = 0 ∧ 1 < x.exponentField)
    (inside : x.interval.Holds v) : ((x.significand : ℚ) - 1 / 4) * 2 ^ x.exponent ≤ v := by
  have low : (x.interval.low : ℚ) = 4 * x.significand - 1 := by
    have pos : 1 ≤ 4 * x.significand := by
      have := le_significand (show x.exponentField ≠ 0 by omega)
      omega
    simp only [interval, narrow, and_self, if_true]
    push_cast [Nat.cast_sub pos]
    ring
  have lo := inside.lo_le
  rw [scale_quarter, low] at lo
  linarith

theorem nearest_of_round {num den : ℕ} (hn : num ≠ 0) {m : ℕ} {q : ℤ}
    (grid : max (floorLog2 num den - 52) (-1074) = q)
    (round : roundHalfEven (num * Nat.pow 2 (-q).toNat) (den * Nat.pow 2 q.toNat) = m)
    (below : m ≠ Nat.pow 2 53) (fits : q ≤ 971) : nearest num den = pack m q := by
  unfold nearest
  simp only [hn, if_false, grid, round, below, if_false]
  rw [if_neg (by omega)]

theorem nearest_of_carry {num den : ℕ} (hn : num ≠ 0) {q : ℤ}
    (grid : max (floorLog2 num den - 52) (-1074) = q)
    (round : roundHalfEven (num * Nat.pow 2 (-q).toNat) (den * Nat.pow 2 q.toNat) = Nat.pow 2 53)
    (fits : q + 1 ≤ 971) : nearest num den = pack (Nat.pow 2 52) (q + 1) := by
  unfold nearest
  simp only [hn, if_false, grid, round, if_true]
  rw [if_neg (by omega)]

theorem nearest_eq_on_grid (sign : x.signBit = false) (finite : x.isFinite = true) {num den : ℕ}
    (hn : 0 < num) (hd : 0 < den)
    (window : Between (decide (x.significand % 2 = 0)) ((x.significand - 1 / 2) * 2 ^ x.exponent)
      ((x.significand + 1 / 2) * 2 ^ x.exponent) (num / den))
    (grid : max (floorLog2 num den - 52) (-1074) = x.exponent) : nearest num den = x := by
  have below : x.significand ≠ Nat.pow 2 53 := by
    have := significand_lt x
    rw [Nat.pow_eq]
    omega
  rw [nearest_of_round hn.ne' grid (roundHalfEven_scaled hd window) below (exponent_le finite)]
  exact pack_significand sign

theorem nearest_eq_of_carry (sign : x.signBit = false) (finite : x.isFinite = true)
    (flat : x.fraction = 0) (normal : 1 < x.exponentField) {num den : ℕ} (hn : 0 < num)
    (hd : 0 < den) (inside : x.interval.Holds (num / den))
    (under : (num / den : ℚ) < 2 ^ (x.exponent + 52)) : nearest num den = x := by
  set q := x.exponent with hq
  set v : ℚ := num / den with hv
  have mEq : x.significand = 2 ^ 52 := by simp only [significand, flat, Nat.pow_eq]; split <;> omega
  have start : ((2 : ℚ) ^ 52 - 1 / 4) * 2 ^ q ≤ v := by
    have := narrow_low ⟨flat, normal⟩ inside
    rw [mEq] at this
    push_cast at this
    exact this
  have grid : max (floorLog2 num den - 52) (-1074) = q - 1 := by
    have qLow : -1073 ≤ q := by simp only [hq, exponent]; split <;> omega
    have binade : floorLog2 num den = q + 51 := by
      refine floorLog2_eq hn hd ?_ (by rw [show q + 51 + 1 = q + 52 by ring]; exact under)
      calc (2 : ℚ) ^ (q + 51) = 2 ^ 51 * 2 ^ q := by
            rw [zpow_add₀ two_ne_zero, mul_comm]; norm_num
        _ ≤ (2 ^ 52 - 1 / 4) * 2 ^ q := by gcongr; norm_num
        _ ≤ v := start
    omega
  have twice : (2 : ℚ) ^ q = 2 * 2 ^ (q - 1) := by
    rw [← zpow_one_add₀ two_ne_zero]; ring_nf
  have startHalf : ((2 : ℚ) ^ 53 - 1 / 2) * 2 ^ (q - 1) ≤ v := by
    rw [twice] at start
    linarith
  have underHalf : v < (2 : ℚ) ^ 53 * 2 ^ (q - 1) := by
    rw [show q + 52 = (q - 1) + 53 by ring, zpow_add₀ two_ne_zero, mul_comm] at under
    norm_num at under ⊢
    exact under
  have round : roundHalfEven (num * Nat.pow 2 (-(q - 1)).toNat) (den * Nat.pow 2 (q - 1).toNat) =
      Nat.pow 2 53 := by
    refine roundHalfEven_scaled hd ⟨?_, .inl ?_⟩
    · push_cast [Nat.pow_eq]
      rcases startHalf.lt_or_eq with below | tight
      · exact .inl below
      · exact .inr ⟨by decide, tight⟩
    · push_cast [Nat.pow_eq]
      calc v < 2 ^ 53 * 2 ^ (q - 1) := underHalf
        _ < (2 ^ 53 + 1 / 2) * 2 ^ (q - 1) := by gcongr; norm_num
  have carried := nearest_of_carry hn.ne' grid round (by have := exponent_le finite; omega)
  rw [carried, sub_add_cancel, show Nat.pow 2 52 = x.significand by rw [mEq, Nat.pow_eq]]
  exact pack_significand sign

/-- Reading a rational number of the rounding interval of a positive finite value gives the value
back. -/
theorem nearest_eq_of_holds (sign : x.signBit = false) (finite : x.isFinite = true)
    (pos : 0 < x.significand) {num den : ℕ} (hd : 0 < den)
    (inside : x.interval.Holds (num / den)) : nearest num den = x := by
  have window := holds_window pos inside
  set m := x.significand with hm
  set q := x.exponent with hq
  set v : ℚ := num / den with hv
  have hn : 0 < num := by
    have mPos : (1 : ℚ) ≤ m := by exact_mod_cast pos
    have scale : (0 : ℚ) < 2 ^ q := by positivity
    have vPos : 0 < v := lt_of_lt_of_le (by nlinarith) window.lo_le
    rcases Nat.eq_zero_or_pos num with zero | numPos
    · simp [v, zero] at vPos
    · exact numPos
  by_cases carry : 1 < x.exponentField ∧ v < 2 ^ (q + 52)
  · obtain ⟨normal, under⟩ := carry
    have flat : x.fraction = 0 := by
      by_contra rough
      have big : (2 : ℚ) ^ 52 + 1 ≤ m := by
        have : 2 ^ 52 + 1 ≤ m := by simp only [hm, significand, Nat.pow_eq]; split <;> omega
        exact_mod_cast this
      have : (2 : ℚ) ^ (q + 52) < v := by
        calc (2 : ℚ) ^ (q + 52) = 2 ^ 52 * 2 ^ q := by
              rw [zpow_add₀ two_ne_zero, mul_comm]; norm_num
          _ < (m - 1 / 2) * 2 ^ q := by gcongr; linarith
          _ ≤ v := window.lo_le
      linarith
    exact nearest_eq_of_carry sign finite flat normal hn hd inside under
  · have top : v < 2 ^ (q + 53) := by
      have mTop : (m : ℚ) + 1 / 2 < 2 ^ 53 := by
        have : (m : ℚ) + 1 ≤ 2 ^ 53 := by
          have := significand_lt x
          exact_mod_cast (by omega : m + 1 ≤ 2 ^ 53)
        linarith
      calc v ≤ (m + 1 / 2) * 2 ^ q := window.le_hi
        _ < 2 ^ 53 * 2 ^ q := by gcongr
        _ = 2 ^ (q + 53) := by rw [zpow_add₀ two_ne_zero, mul_comm]; norm_num
    have gridLe : floorLog2 num den - 52 ≤ q := by
      have := floorLog2_lt hn hd top
      omega
    have low := exponent_ge x
    have grid : max (floorLog2 num den - 52) (-1074) = q := by
      by_cases normal : 1 < x.exponentField
      · have above : (2 : ℚ) ^ (q + 52) ≤ v := by
          by_contra under
          exact carry ⟨normal, lt_of_not_ge under⟩
        have := le_floorLog2 hn hd above
        omega
      · have least : q = -1074 := by simp only [hq, exponent]; split <;> omega
        omega
    exact nearest_eq_on_grid sign finite hn hd window grid

end Binary64

end TemplateLex
