import TemplateLex.Proofs.Rounding

/-! Reading a rational number rounds to nearest, ties to even, as IEEE 754 has it. The reader rounds
on the grid of the last place of the rational's binade; finite values with a coarser last place lie
on that grid, and those with a finer one lie below the binade. -/
namespace TemplateLex

theorem Between.scale {closed : Bool} {lo hi v s : ℚ} (between : Between closed lo hi (v / s))
    (pos : 0 < s) : Between closed (lo * s) (hi * s) v := by
  obtain ⟨low, high⟩ := between
  constructor
  · rcases low with below | ⟨closed, tight⟩
    · exact .inl ((lt_div_iff₀ pos).mp below)
    · exact .inr ⟨closed, (eq_div_iff pos.ne').mp tight⟩
  · rcases high with above | ⟨closed, tight⟩
    · exact .inl ((div_lt_iff₀ pos).mp above)
    · exact .inr ⟨closed, (div_eq_iff pos.ne').mp tight⟩

namespace Binary64

/-- The value of a finite binary64 value, its sign included. -/
def toRat (x : Binary64) : ℚ := (if x.signBit then -1 else 1) * (x.significand * 2 ^ x.exponent)

/-- Where nonnegative rationals start to read as infinity: the largest finite value and half its
last place. -/
def overflowThreshold : ℚ := (2 ^ 53 - 1 / 2) * 2 ^ (971 : ℤ)

/-- `x` is what rounding to nearest, ties to even, makes of a nonnegative rational `r`: infinity
from the overflow threshold on; below it a finite value with the sign bit clear that no finite
value is nearer to `r` than, and whose significand is even when another value is as near. -/
def RoundsToNearestEven (r : ℚ) (x : Binary64) : Prop :=
  (overflowThreshold ≤ r ∧ x = infinity) ∨
    (r < overflowThreshold ∧ x.isFinite = true ∧ x.signBit = false ∧
      ∀ y : Binary64, y.isFinite = true →
        |x.toRat - r| ≤ |y.toRat - r| ∧
          (|y.toRat - r| = |x.toRat - r| → y.toRat ≠ x.toRat → x.significand % 2 = 0))

theorem RoundsToNearestEven.signBit_finite {r : ℚ} {x : Binary64}
    (rounds : RoundsToNearestEven r x) :
    x.signBit = false ∧ (x.isFinite = true ∨ x = infinity) := by
  rcases rounds with ⟨-, rfl⟩ | ⟨-, finite, sign, -⟩
  · exact ⟨by decide, .inr rfl⟩
  · exact ⟨sign, .inl finite⟩

section Values

variable {x : Binary64}

theorem pow_mul_zpow_two (n : ℕ) (e : ℤ) : (2 : ℚ) ^ n * 2 ^ e = 2 ^ (e + n) := by
  rw [zpow_add₀ two_ne_zero, zpow_natCast, mul_comm]

theorem toRat_of_signBit (sign : x.signBit = false) :
    x.toRat = x.significand * 2 ^ x.exponent := by
  simp [toRat, sign]

theorem abs_toRat (x : Binary64) : |x.toRat| = x.significand * 2 ^ x.exponent := by
  have nonneg : (0 : ℚ) ≤ x.significand * 2 ^ x.exponent := by positivity
  unfold toRat
  split <;> simp [abs_of_nonneg nonneg]

theorem toRat_lt_of_exponent_lt {q : ℤ} (finer : x.exponent < q) : x.toRat < 2 ^ (q + 52) := by
  have small : (x.significand : ℚ) < 2 ^ 53 := by exact_mod_cast significand_lt x
  calc x.toRat ≤ |x.toRat| := le_abs_self _
    _ = x.significand * 2 ^ x.exponent := abs_toRat x
    _ < 2 ^ 53 * 2 ^ x.exponent := by gcongr
    _ = 2 ^ (x.exponent + 53) := pow_mul_zpow_two 53 x.exponent
    _ ≤ 2 ^ (q + 52) := zpow_le_zpow_right₀ one_le_two (by omega)

theorem toRat_grid {q : ℤ} (coarser : q ≤ x.exponent) : ∃ k : ℤ, x.toRat = k * 2 ^ q := by
  obtain ⟨n, apart⟩ := Int.eq_ofNat_of_zero_le (sub_nonneg.mpr coarser)
  refine ⟨(if x.signBit then -1 else 1) * ((x.significand * 2 ^ n : ℕ) : ℤ), ?_⟩
  have split : (2 : ℚ) ^ x.exponent = 2 ^ n * 2 ^ q := by
    rw [show x.exponent = n + q by omega, zpow_add₀ two_ne_zero, zpow_natCast]
  unfold toRat
  rw [split]
  split <;> push_cast <;> ring

end Values

section Grid

/-- Of all integers, the one whose window holds `t` is nearest to it; another as near is a
neighbour at the common end of their windows, and then the one rounded to is even. -/
theorem nearest_integer {m : ℕ} {t : ℚ}
    (near : Between (decide (m % 2 = 0)) (m - 1 / 2) (m + 1 / 2) t) (k : ℤ) :
    |(m : ℚ) - t| ≤ |(k : ℚ) - t| ∧ (|(k : ℚ) - t| = |(m : ℚ) - t| → k ≠ m → m % 2 = 0) := by
  have lo := near.lo_le
  have hi := near.le_hi
  have close : |(m : ℚ) - t| ≤ 1 / 2 := abs_le.mpr ⟨by linarith, by linarith⟩
  rcases lt_trichotomy k m with below | same | above
  · have step : (k : ℚ) ≤ m - 1 := by
      have : k ≤ (m : ℤ) - 1 := by omega
      exact_mod_cast this
    have far : |(k : ℚ) - t| = t - k := by rw [abs_sub_comm]; exact abs_of_nonneg (by linarith)
    refine ⟨by rw [far]; linarith, fun tie _ => ?_⟩
    rw [far] at tie
    have edge : (m : ℚ) - 1 / 2 = t := le_antisymm lo (by linarith)
    simpa using near.closed_of_lo_eq edge
  · subst same
    exact ⟨by simp, fun _ differ => absurd rfl differ⟩
  · have step : (m : ℚ) + 1 ≤ k := by
      have : (m : ℤ) + 1 ≤ k := by omega
      exact_mod_cast this
    have far : |(k : ℚ) - t| = k - t := abs_of_nonneg (by linarith)
    refine ⟨by rw [far]; linarith, fun tie _ => ?_⟩
    rw [far] at tie
    have edge : t = (m : ℚ) + 1 / 2 := le_antisymm hi (by linarith)
    simpa using near.closed_of_eq_hi edge

theorem nearest_on_grid {m : ℕ} {q : ℤ} {v : ℚ}
    (window : Between (decide (m % 2 = 0)) ((m - 1 / 2) * 2 ^ q) ((m + 1 / 2) * 2 ^ q) v)
    (k : ℤ) :
    |m * 2 ^ q - v| ≤ |k * 2 ^ q - v| ∧
      (|k * 2 ^ q - v| = |m * 2 ^ q - v| → k ≠ m → m % 2 = 0) := by
  have scale : (0 : ℚ) < 2 ^ q := by positivity
  have apart : ∀ a : ℚ, |a * 2 ^ q - v| = 2 ^ q * |a - v / 2 ^ q| := by
    intro a
    have factored : a * 2 ^ q - v = 2 ^ q * (a - v / 2 ^ q) := by field_simp
    rw [factored, abs_mul, abs_of_pos scale]
  obtain ⟨le, tie⟩ := nearest_integer (window.unscale scale) k
  refine ⟨?_, fun same differ => tie ?_ differ⟩
  · rw [apart, apart]
    exact mul_le_mul_of_nonneg_left le scale.le
  · rw [apart, apart] at same
    exact mul_left_cancel₀ scale.ne' same

end Grid

theorem pack_fields {m : ℕ} {q : ℤ} (small : m < 2 ^ 53) (normal : 2 ^ 52 ≤ m ∨ q = -1074)
    (least : -1074 ≤ q) (fits : q ≤ 971) :
    (pack m q).significand = m ∧ (pack m q).exponent = q ∧ (pack m q).signBit = false ∧
      (pack m q).isFinite = true := by
  have size : UInt64.size = 2 ^ 64 := rfl
  unfold pack
  rw [Nat.pow_eq]
  split
  · rename_i subnormal
    have bits : m.toUInt64.toNat = m := UInt64.toNat_ofNat_of_lt' (by omega)
    have field : m / Nat.pow 2 52 % Nat.pow 2 11 = 0 := by rw [Nat.pow_eq, Nat.pow_eq]; omega
    have frac : m % Nat.pow 2 52 = m := by rw [Nat.pow_eq]; omega
    simp only [significand, exponent, exponentField, fraction, signBit, isFinite, bits, field,
      frac, if_true]
    refine ⟨trivial, by omega, ?_, by decide⟩
    simp only [Nat.pow_eq, decide_eq_false_iff_not, not_le]
    omega
  · rename_i normal
    obtain ⟨n, hn⟩ : ∃ n, (q + 1075).toNat * 2 ^ 52 + (m - 2 ^ 52) = n := ⟨_, rfl⟩
    rw [hn]
    have bits : n.toUInt64.toNat = n := UInt64.toNat_ofNat_of_lt' (by omega)
    have field : n / Nat.pow 2 52 % Nat.pow 2 11 = (q + 1075).toNat := by
      rw [Nat.pow_eq, Nat.pow_eq]
      omega
    have frac : n % Nat.pow 2 52 = m - 2 ^ 52 := by rw [Nat.pow_eq]; omega
    have notZero : (q + 1075).toNat ≠ 0 := by omega
    simp only [significand, exponent, exponentField, fraction, signBit, isFinite, bits, field,
      frac, notZero, if_false]
    refine ⟨by rw [Nat.pow_eq]; omega, by omega, ?_, ?_⟩
    · simp only [Nat.pow_eq, decide_eq_false_iff_not, not_le]
      omega
    · simp only [decide_eq_true_eq]
      omega

/-- What the reader makes of `v` on the grid of `2^q`: `v` lies within half a place of `m * 2^q`,
the ends counting when `m` is even, below `2^(q + 53)`, and, unless `q` is the least exponent, in
the binade from `2^(q + 52)` on. -/
structure GridRound (v : ℚ) (m : ℕ) (q : ℤ) : Prop where
  window : Between (decide (m % 2 = 0)) ((m - 1 / 2) * 2 ^ q) ((m + 1 / 2) * 2 ^ q) v
  below : v < 2 ^ (q + 53)
  least : -1074 ≤ q
  binade : -1074 < q → 2 ^ (q + 52) ≤ v

namespace GridRound

variable {v : ℚ} {m : ℕ} {q : ℤ}

/-- No finite value is nearer to `v` than the grid point, and one as near makes a tie that the
grid point wins by being even. -/
theorem optimal (grid : GridRound v m q) (y : Binary64) :
    |m * 2 ^ q - v| ≤ |y.toRat - v| ∧
      (|y.toRat - v| = |m * 2 ^ q - v| → y.toRat ≠ m * 2 ^ q → m % 2 = 0) := by
  by_cases coarser : q ≤ y.exponent
  · obtain ⟨k, onGrid⟩ := toRat_grid coarser
    obtain ⟨le, tie⟩ := nearest_on_grid grid.window k
    rw [onGrid]
    refine ⟨le, fun same differ => tie same ?_⟩
    rintro rfl
    exact differ (by push_cast; rfl)
  · have finer : y.exponent < q := lt_of_not_ge coarser
    have inBinade := grid.binade (lt_of_le_of_lt (exponent_ge y) finer)
    have under := toRat_lt_of_exponent_lt finer
    obtain ⟨le, -⟩ := nearest_on_grid grid.window (2 ^ 52)
    have corner : ((2 ^ 52 : ℤ) : ℚ) * 2 ^ q = 2 ^ (q + 52) := by
      push_cast
      exact pow_mul_zpow_two 52 q
    rw [corner] at le
    have far : |(2 : ℚ) ^ (q + 52) - v| < |y.toRat - v| := by
      rw [abs_of_nonpos (by linarith), abs_of_neg (by linarith)]
      linarith
    exact ⟨le.trans far.le, fun same => absurd same (ne_of_gt (lt_of_le_of_lt le far))⟩

theorem le_top (grid : GridRound v m q) : m ≤ 2 ^ 53 := by
  have scale : (0 : ℚ) < 2 ^ q := by positivity
  have top : (2 : ℚ) ^ (q + 53) = 2 ^ 53 * 2 ^ q := (pow_mul_zpow_two 53 q).symm
  have low := grid.window.lo_le
  have high := grid.below
  rw [top] at high
  have under : (m : ℚ) - 1 / 2 < 2 ^ 53 := lt_of_mul_lt_mul_right (low.trans_lt high) scale.le
  have : (m : ℚ) < 2 ^ 53 + 1 := by linarith
  exact_mod_cast Nat.lt_succ_iff.mp (by exact_mod_cast this)

theorem normal_or_least (grid : GridRound v m q) : 2 ^ 52 ≤ m ∨ q = -1074 := by
  rcases grid.least.lt_or_eq with above | least
  · left
    have scale : (0 : ℚ) < 2 ^ q := by positivity
    have bottom : (2 : ℚ) ^ (q + 52) = 2 ^ 52 * 2 ^ q := (pow_mul_zpow_two 52 q).symm
    have low := grid.binade above
    rw [bottom] at low
    have past : (2 : ℚ) ^ 52 < m + 1 :=
      lt_of_mul_lt_mul_right (low.trans_lt (lt_of_le_of_lt grid.window.le_hi (by
        gcongr
        norm_num))) scale.le
    have : 2 ^ 52 < m + 1 := by exact_mod_cast past
    omega
  · exact .inr least.symm

theorem lt_overflowThreshold_of_le (grid : GridRound v m q) (lower : q ≤ 970) :
    v < overflowThreshold :=
  calc v < 2 ^ (q + 53) := grid.below
    _ ≤ 2 ^ ((971 : ℤ) + (52 : ℕ)) := zpow_le_zpow_right₀ one_le_two (by omega)
    _ = 2 ^ 52 * 2 ^ (971 : ℤ) := (pow_mul_zpow_two 52 971).symm
    _ < overflowThreshold := by
      unfold overflowThreshold
      gcongr
      norm_num

theorem lt_overflowThreshold (grid : GridRound v m q) (fits : q ≤ 971) (small : m < 2 ^ 53) :
    v < overflowThreshold := by
  rcases (by omega : q ≤ 970 ∨ q = 971) with lower | last
  · exact grid.lt_overflowThreshold_of_le lower
  · subst last
    rcases grid.window.2 with under | ⟨even, edge⟩
    · have top : (m : ℚ) + 1 ≤ 2 ^ 53 := by exact_mod_cast (by omega : m + 1 ≤ 2 ^ 53)
      calc v < (m + 1 / 2) * 2 ^ (971 : ℤ) := under
        _ ≤ overflowThreshold := by
          unfold overflowThreshold
          gcongr
          linarith
    · have even : m % 2 = 0 := by simpa using even
      have top : (m : ℚ) + 2 ≤ 2 ^ 53 := by exact_mod_cast (by omega : m + 2 ≤ 2 ^ 53)
      rw [edge]
      unfold overflowThreshold
      gcongr
      linarith

theorem overflowThreshold_le (grid : GridRound v m q) (past : 971 < q) : overflowThreshold ≤ v :=
  calc overflowThreshold ≤ 2 ^ 53 * 2 ^ (971 : ℤ) := by
        unfold overflowThreshold
        gcongr
        norm_num
    _ = 2 ^ ((971 : ℤ) + (53 : ℕ)) := pow_mul_zpow_two 53 971
    _ ≤ 2 ^ (q + 52) := zpow_le_zpow_right₀ one_le_two (by omega)
    _ ≤ v := grid.binade (by omega)

theorem rounds_exact (grid : GridRound v m q) (noCarry : m ≠ 2 ^ 53) :
    RoundsToNearestEven v (if 971 < q then infinity else pack m q) := by
  have small : m < 2 ^ 53 := lt_of_le_of_ne grid.le_top noCarry
  split
  · rename_i past
    exact .inl ⟨grid.overflowThreshold_le past, rfl⟩
  · rename_i fits
    obtain ⟨significand, exponent, sign, finite⟩ :=
      pack_fields small grid.normal_or_least grid.least (by omega)
    refine .inr ⟨grid.lt_overflowThreshold (by omega) small, finite, sign, fun y _ => ?_⟩
    rw [toRat_of_signBit sign, significand, exponent]
    exact grid.optimal y

theorem rounds_carry (grid : GridRound v m q) (carry : m = 2 ^ 53) :
    RoundsToNearestEven v (if 971 < q + 1 then infinity else pack (2 ^ 52) (q + 1)) := by
  split
  · rename_i past
    have low := grid.window.lo_le
    rw [carry] at low
    push_cast at low
    refine .inl ⟨?_, rfl⟩
    calc overflowThreshold ≤ (2 ^ 53 - 1 / 2) * 2 ^ q :=
          mul_le_mul_of_nonneg_left (zpow_le_zpow_right₀ one_le_two (by omega)) (by norm_num)
      _ ≤ v := low
  · rename_i fits
    obtain ⟨significand, exponent, sign, finite⟩ :=
      pack_fields (m := 2 ^ 52) (q := q + 1) (by norm_num) (.inl le_rfl)
        (by have := grid.least; omega) (by omega)
    refine .inr ⟨grid.lt_overflowThreshold_of_le (by omega), finite, sign, fun y _ => ?_⟩
    have same : (pack (2 ^ 52) (q + 1)).toRat = m * 2 ^ q := by
      rw [toRat_of_signBit sign, significand, exponent, carry, zpow_add₀ two_ne_zero]
      push_cast
      ring
    rw [same, significand]
    obtain ⟨le, -⟩ := grid.optimal y
    exact ⟨le, fun _ _ => by norm_num⟩

end GridRound

theorem gridRound_nearest {num den : ℕ} (hn : 0 < num) (hd : 0 < den) {q : ℤ}
    (grid : max (floorLog2 num den - 52) (-1074) = q) :
    GridRound (num / den) (roundHalfEven (num * Nat.pow 2 (-q).toNat) (den * Nat.pow 2 q.toNat))
      q := by
  obtain ⟨atLeast, under⟩ := floorLog2_spec hn hd
  have scale : (0 : ℚ) < 2 ^ q := by positivity
  have divisor : 0 < den * Nat.pow 2 q.toNat := Nat.mul_pos hd (by rw [Nat.pow_eq]; positivity)
  refine ⟨?_, ?_, by omega, fun above => ?_⟩
  · have spec := roundHalfEven_spec (num * Nat.pow 2 (-q).toNat) divisor
    rw [scaled_div] at spec
    exact spec.scale scale
  · calc (num / den : ℚ) < 2 ^ (floorLog2 num den + 1) := under
      _ ≤ 2 ^ (q + 53) := zpow_le_zpow_right₀ one_le_two (by omega)
  · have binade : q + 52 = floorLog2 num den := by omega
    rw [binade]
    exact atLeast

theorem nearest_eq_of_pos {num den : ℕ} (hn : num ≠ 0) {q : ℤ}
    (grid : max (floorLog2 num den - 52) (-1074) = q) {m : ℕ}
    (round : roundHalfEven (num * Nat.pow 2 (-q).toNat) (den * Nat.pow 2 q.toNat) = m) :
    nearest num den = if m = 2 ^ 53 then (if 971 < q + 1 then infinity else pack (2 ^ 52) (q + 1))
      else (if 971 < q then infinity else pack m q) := by
  unfold nearest
  simp only [hn, if_false, grid, round]
  rw [Nat.pow_eq, Nat.pow_eq]
  split <;> rfl

/-- Reading `num / den` rounds to nearest, ties to even. -/
theorem nearest_rounds (num : ℕ) {den : ℕ} (hd : 0 < den) :
    RoundsToNearestEven (num / den) (nearest num den) := by
  rcases Nat.eq_zero_or_pos num with zero | hn
  · subst zero
    have read : nearest 0 den = zero := by simp [nearest]
    have value : zero.toRat = 0 := by simp [toRat, zero, significand, exponentField, fraction]
    rw [read]
    refine .inr ⟨by unfold overflowThreshold; norm_num, by decide, by decide, fun y _ => ?_⟩
    simp only [value, Nat.cast_zero, zero_div, sub_zero, abs_zero]
    exact ⟨abs_nonneg _, fun same differ => absurd (abs_eq_zero.mp same) differ⟩
  · obtain ⟨q, grid⟩ : ∃ q, max (floorLog2 num den - 52) (-1074) = q := ⟨_, rfl⟩
    obtain ⟨m, round⟩ : ∃ m,
        roundHalfEven (num * Nat.pow 2 (-q).toNat) (den * Nat.pow 2 q.toNat) = m := ⟨_, rfl⟩
    have rounding := gridRound_nearest hn hd grid
    rw [round] at rounding
    rw [nearest_eq_of_pos hn.ne' grid round]
    by_cases carry : m = 2 ^ 53
    · rw [if_pos carry]
      exact rounding.rounds_carry carry
    · rw [if_neg carry]
      exact rounding.rounds_exact carry

end Binary64

end TemplateLex
