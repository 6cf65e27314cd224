import TemplateLex.Proofs.Rounding
import TemplateLex.Decimal.Positional
import TemplateLex.Lexer.Scan
import Mathlib.Tactic.SplitIfs
import Mathlib.Data.List.TakeWhile

/-! Writing a number and reading it back. The shortest digits lie in the rounding interval, and laid
out positionally they form a literal of that value, so the text of a finite nonnegative value reads
back to the value. -/
namespace TemplateLex

def Decimal.value (d : Decimal) : ℚ := d.digits * 10 ^ d.exponent

section Compare

theorem compare_congr {α β : Type} [LinearOrder α] [LinearOrder β] {a b : α} {x y : β}
    (lt : a < b ↔ x < y) (eq : a = b ↔ x = y) : compare a b = compare x y := by
  have gt : b < a ↔ y < x := by
    rw [lt_iff_not_ge, lt_iff_not_ge, le_iff_lt_or_eq, le_iff_lt_or_eq, lt, eq]
  rcases lt_trichotomy x y with below | same | above
  · rw [compare_lt_iff_lt.mpr below, compare_lt_iff_lt.mpr (lt.mpr below)]
  · rw [compare_eq_iff_eq.mpr same, compare_eq_iff_eq.mpr (eq.mpr same)]
  · rw [compare_gt_iff_gt.mpr above, compare_gt_iff_gt.mpr (gt.mpr above)]

theorem compareScaled_eq (a : ℕ) (i : ℤ) (n : ℕ) (j : ℤ) :
    compareScaled a i n j = compare ((a : ℚ) * 10 ^ i) ((n : ℚ) * 2 ^ j) := by
  have ten := natPow_div_natPow 10 i
  have two := natPow_div_natPow 2 j
  have tenDown := natPow_pos (by decide : 0 < 10) (-i).toNat
  have twoDown := natPow_pos two_pos (-j).toNat
  have scale : (0 : ℚ) < (Nat.pow 10 (-i).toNat : ℕ) * (Nat.pow 2 (-j).toNat : ℕ) := by positivity
  have left : ((a * Nat.pow 10 i.toNat * Nat.pow 2 (-j).toNat : ℕ) : ℚ) =
      a * 10 ^ i * ((Nat.pow 10 (-i).toNat : ℕ) * (Nat.pow 2 (-j).toNat : ℕ)) := by
    push_cast at ten
    rw [← ten]
    field_simp
    push_cast
    ring
  have right : ((n * Nat.pow 2 j.toNat * Nat.pow 10 (-i).toNat : ℕ) : ℚ) =
      n * 2 ^ j * ((Nat.pow 10 (-i).toNat : ℕ) * (Nat.pow 2 (-j).toNat : ℕ)) := by
    push_cast at two
    rw [← two]
    field_simp
    push_cast
    ring
  unfold compareScaled
  refine compare_congr ?_ ?_
  · rw [← Nat.cast_lt (α := ℚ), left, right]
    exact mul_lt_mul_iff_left₀ scale
  · rw [← Nat.cast_inj (R := ℚ), left, right]
    exact mul_left_inj' scale.ne'

theorem Interval.contains_iff (r : Interval) (a : ℕ) (i : ℤ) :
    r.contains a i = true ↔ r.Holds (a * 10 ^ i) := by
  simp only [contains, compareScaled_eq, Holds, Between, Bool.and_eq_true, Bool.or_eq_true,
    beq_iff_eq, compare_gt_iff_gt, compare_lt_iff_lt, compare_eq_iff_eq]
  constructor <;> rintro ⟨low, high⟩ <;> exact ⟨low.imp_right (And.imp_right Eq.symm), high⟩

end Compare

section Shortest

variable {x : Binary64}

theorem searchGrids_contains {r : Interval} {m : ℕ} {q k : ℤ} {d : Decimal} {n fuel : ℕ}
    (found : Binary64.searchGrids r m q k n fuel = some d) :
    r.contains d.digits d.exponent = true := by
  induction fuel generalizing n with
  | zero => simp [Binary64.searchGrids] at found
  | succ fuel ih =>
    simp only [Binary64.searchGrids] at found
    split_ifs at found with both nearer up down
    · cases found
      exact (Bool.and_eq_true_iff.mp both).2
    · cases found
      exact (Bool.and_eq_true_iff.mp both).1
    · cases found
      exact up
    · cases found
      exact down
    · exact ih found

theorem trim_go_value (n : ℕ) (e : ℤ) (fuel : ℕ) :
    (Decimal.trim.go n e fuel).value = (Decimal.mk n e).value := by
  induction fuel generalizing n e with
  | zero => rfl
  | succ fuel ih =>
    unfold Decimal.trim.go
    split_ifs with zeros
    · rw [ih]
      have tens : (n : ℚ) = (n / 10 : ℕ) * 10 := by
        exact_mod_cast (Nat.div_mul_cancel (Nat.dvd_of_mod_eq_zero zeros.2)).symm
      simp only [Decimal.value]
      rw [tens, zpow_add_one₀ (by norm_num)]
      ring
    · rfl

theorem trim_value (d : Decimal) : d.trim.value = d.value := trim_go_value _ _ _

theorem exactDecimal_value (m : ℕ) (q : ℤ) : (Binary64.exactDecimal m q).value = m * 2 ^ q := by
  unfold Binary64.exactDecimal Decimal.value
  split_ifs with nonneg
  · obtain ⟨k, rfl⟩ := Int.eq_ofNat_of_zero_le nonneg
    simp [Nat.pow_eq]
  · obtain ⟨k, rfl⟩ := Int.exists_eq_neg_ofNat (by omega : q ≤ 0)
    have split : (10 : ℚ) ^ k = 2 ^ k * 5 ^ k := by rw [← mul_pow]; norm_num
    simp only [neg_neg, Int.toNat_natCast, Nat.pow_eq, zpow_neg, zpow_natCast, split]
    push_cast
    field_simp

theorem Binary64.holds_center (pos : 0 < x.significand) :
    x.interval.Holds (x.significand * 2 ^ x.exponent) := by
  have low : (x.interval.low : ℚ) < 4 * x.significand := by
    have : x.interval.low < 4 * x.significand := by simp only [interval]; split_ifs <;> omega
    exact_mod_cast this
  have high : (x.interval.high : ℚ) = 4 * x.significand + 2 := by simp [interval]
  have scale : (0 : ℚ) < 2 ^ x.exponent := by positivity
  unfold Interval.Holds
  rw [Binary64.scale_quarter, high]
  constructor
  · left
    nlinarith
  · left
    nlinarith

/-- The shortest digits lie in the rounding interval. -/
theorem Binary64.shortest_holds (pos : 0 < x.significand) : x.interval.Holds x.shortest.value := by
  unfold shortest
  dsimp only
  rw [trim_value]
  cases found : searchGrids x.interval x.significand x.exponent
      (leadingExponent x.significand x.exponent) 1 17 with
  | none =>
    rw [Option.getD_none, exactDecimal_value]
    exact holds_center pos
  | some d => exact (Interval.contains_iff _ _ _).mp (searchGrids_contains found)

theorem Decimal.value_eq_div (d : Decimal) :
    d.value = ((d.digits * Nat.pow 10 d.exponent.toNat : ℕ) : ℚ) /
      (Nat.pow 10 (-d.exponent).toNat : ℕ) := by
  have ten := natPow_div_natPow 10 d.exponent
  push_cast at ten ⊢
  rw [mul_div_assoc, ten]
  rfl

theorem Decimal.toBinary64_eq (sign : x.signBit = false) (finite : x.isFinite = true)
    (pos : 0 < x.significand) {d : Decimal} (inside : x.interval.Holds d.value) :
    d.toBinary64 = x := by
  apply Binary64.nearest_eq_of_holds sign finite pos (by rw [Nat.pow_eq]; positivity)
  rw [← d.value_eq_div]
  exact inside

theorem Binary64.eq_zero (sign : x.signBit = false) (empty : x.significand = 0) : x = zero := by
  have layout := bits_eq sign
  have flat : x.exponentField = 0 := by
    by_contra normal
    have := le_significand normal
    omega
  have nothing : x.fraction = 0 := by simpa [significand, flat] using empty
  have bits : x.bits = 0 := by
    apply UInt64.toNat_inj.mp
    rw [layout, flat, nothing]
    rfl
  cases x
  simp only at bits
  rw [bits]
  rfl

end Shortest

section Literal

def Digits (ds : List Char) : Prop := ∀ c ∈ ds, c.isDigit = true

instance : DecidablePred Digits := fun ds =>
  decidable_of_iff (ds.all Char.isDigit = true) List.all_eq_true

/-- The text of a number literal: digits, then possibly a decimal point and more digits. -/
inductive Literal : List Char → Prop
  | whole {ds : List Char} (digits : Digits ds) (nonempty : ds ≠ []) : Literal ds
  | point {ds fs : List Char} (digits : Digits ds) (nonempty : ds ≠ []) (fraction : Digits fs) :
      Literal (ds ++ '.' :: fs)

theorem digits_toDigits (n : ℕ) : Digits (Nat.toDigits 10 n) :=
  fun _ member => Nat.isDigit_of_mem_toDigits (by decide) (by decide) member

theorem digits_replicate_zero (k : ℕ) : Digits (List.replicate k '0') := by
  intro c member
  rw [List.eq_of_mem_replicate member]
  rfl

theorem Digits.append {ds fs : List Char} (left : Digits ds) (right : Digits fs) :
    Digits (ds ++ fs) := by
  intro c member
  rcases List.mem_append.mp member with inLeft | inRight
  · exact left c inLeft
  · exact right c inRight

theorem ne_point_of_digits {ds : List Char} (digits : Digits ds) :
    ∀ c ∈ ds, decide (c ≠ '.') = true := by
  intro c member
  simp only [decide_eq_true_eq]
  rintro rfl
  exact absurd (digits _ member) (by decide)

theorem longestRun_digits {ds : List Char} (digits : Digits ds) (dotSeen : Bool)
    (rest : List Char) :
    longestRun numberStep dotSeen (ds ++ rest) = ds ++ longestRun numberStep dotSeen rest := by
  induction ds with
  | nil => rfl
  | cons c ds ih =>
    have digit : c.isDigit = true := digits c List.mem_cons_self
    simp only [List.cons_append, longestRun, numberStep, digit, if_true]
    rw [ih (fun c member => digits c (List.mem_cons_of_mem _ member))]

theorem numberRun_literal {cs : List Char} (literal : Literal cs) {c : Char}
    (notDigit : c.isDigit = false) (notPoint : c ≠ '.') (rest : List Char) :
    numberRun (cs ++ c :: rest) = cs := by
  have stop : ∀ dotSeen, numberStep dotSeen c = none := by
    intro dotSeen
    simp [numberStep, notDigit, notPoint]
  unfold numberRun
  cases literal with
  | whole digits nonempty =>
    rw [longestRun_digits digits]
    simp only [longestRun, stop, List.append_nil]
  | point digits nonempty fraction =>
    have point : numberStep false '.' = some true := by decide
    rw [List.append_assoc, longestRun_digits digits, List.cons_append]
    simp only [longestRun, point]
    rw [longestRun_digits fraction]
    simp only [longestRun, stop, List.append_nil]

theorem Literal.head {cs : List Char} (literal : Literal cs) :
    ∃ c rest, cs = c :: rest ∧ c.isDigit = true := by
  cases literal with
  | whole digits nonempty =>
    obtain ⟨c, rest, rfl⟩ := List.exists_cons_of_ne_nil nonempty
    exact ⟨c, rest, rfl, digits c List.mem_cons_self⟩
  | point digits nonempty fraction =>
    obtain ⟨c, rest, rfl⟩ := List.exists_cons_of_ne_nil nonempty
    exact ⟨c, rest ++ '.' :: _, rfl, digits c List.mem_cons_self⟩

theorem endRun_follow {run : List Char} (nonempty : run ≠ []) (s : Char) (rest : List Char)
    (make : Except ErrorKind Token) : endRun run (s :: rest) make = ⟨run.length, make⟩ := by
  have notEmpty : run.isEmpty = false := List.isEmpty_eq_false_iff.mpr nonempty
  simp only [endRun, notEmpty, List.isEmpty_cons, Bool.false_eq_true, if_false]

theorem scanNumber_literal {cs : List Char} (literal : Literal cs) {s : Char}
    (notDigit : s.isDigit = false) (notPoint : s ≠ '.') (rest : List Char) :
    scanNumber (cs ++ s :: rest) =
      ⟨cs.length, .ok (.number (Decimal.ofLiteral cs).toBinary64)⟩ := by
  obtain ⟨c, tail, split, -⟩ := literal.head
  have follows : (s :: rest).head? = some '.' ↔ False := by simp [notPoint]
  unfold scanNumber
  dsimp only
  rw [numberRun_literal literal notDigit notPoint rest, List.drop_left,
    endRun_follow (by simp [split]), if_neg (by simp [notPoint])]

theorem digitsValue_eq (cs : List Char) : digitsValue cs = Nat.ofDigitChars 10 cs 0 :=
  Nat.ofDigitChars_eq_foldl.symm

theorem ofLiteral_whole {ds : List Char} (digits : Digits ds) :
    Decimal.ofLiteral ds = ⟨digitsValue ds, 0⟩ := by
  have take : ds.takeWhile (· ≠ '.') = ds :=
    List.takeWhile_eq_self_iff.mpr (ne_point_of_digits digits)
  have drop : ds.dropWhile (· ≠ '.') = [] :=
    List.dropWhile_eq_nil_iff.mpr (ne_point_of_digits digits)
  unfold Decimal.ofLiteral
  rw [take, drop]
  simp

theorem ofLiteral_point {ds fs : List Char} (digits : Digits ds) :
    Decimal.ofLiteral (ds ++ '.' :: fs) = ⟨digitsValue (ds ++ fs), -(fs.length : ℤ)⟩ := by
  have take : (ds ++ '.' :: fs).takeWhile (· ≠ '.') = ds := by
    rw [List.takeWhile_append_of_pos (ne_point_of_digits digits)]
    simp
  have drop : (ds ++ '.' :: fs).dropWhile (· ≠ '.') = '.' :: fs := by
    rw [List.dropWhile_append_of_pos (ne_point_of_digits digits)]
    simp
  simp only [Decimal.ofLiteral, take, drop, List.drop_one, List.tail_cons]

theorem digitsValue_append_zeros (ds : List Char) (k : ℕ) :
    digitsValue (ds ++ List.replicate k '0') = digitsValue ds * 10 ^ k := by
  rw [digitsValue_eq, digitsValue_eq, Nat.ofDigitChars_append, Nat.ofDigitChars_replicate_zero,
    Nat.mul_comm]

theorem digitsValue_zeros_append (k : ℕ) (ds : List Char) :
    digitsValue (List.replicate k '0' ++ ds) = digitsValue ds := by
  rw [digitsValue_eq, digitsValue_eq, Nat.ofDigitChars_append, Nat.ofDigitChars_replicate_zero,
    Nat.mul_zero]

theorem Decimal.positional_literal (d : Decimal) :
    Literal d.positional.toList ∧ (Decimal.ofLiteral d.positional.toList).value = d.value := by
  have digits := digits_toDigits d.digits
  have nonempty : Nat.toDigits 10 d.digits ≠ [] := Nat.toDigits_ne_nil
  have value : digitsValue (Nat.toDigits 10 d.digits) = d.digits := by
    rw [digitsValue_eq]
    exact Nat.ofDigitChars_ten_toDigits
  unfold positional
  dsimp only
  split_ifs with whole placed
  · rw [String.toList_ofList]
    refine ⟨.whole (digits.append (digits_replicate_zero _)) (by simp [nonempty]), ?_⟩
    rw [ofLiteral_whole (digits.append (digits_replicate_zero _)), Decimal.value, Decimal.value,
      digitsValue_append_zeros, value]
    obtain ⟨k, hk⟩ := Int.eq_ofNat_of_zero_le whole
    simp [hk]
  · rw [String.toList_ofList]
    set ds := Nat.toDigits 10 d.digits
    have lead : ds.take ((ds.length : ℤ) + d.exponent).toNat ≠ [] := by
      simp only [ne_eq, List.take_eq_nil_iff, not_or]
      exact ⟨by omega, nonempty⟩
    refine ⟨.point (fun c member => digits c (List.mem_of_mem_take member)) lead
      (fun c member => digits c (List.mem_of_mem_drop member)), ?_⟩
    rw [ofLiteral_point (fun c member => digits c (List.mem_of_mem_take member)),
      List.take_append_drop, value, List.length_drop]
    have exponent : -((ds.length - ((ds.length : ℤ) + d.exponent).toNat : ℕ) : ℤ) = d.exponent := by
      omega
    simp only [Decimal.value, exponent]
  · rw [String.toList_ofList]
    set ds := Nat.toDigits 10 d.digits
    have shape : '0' :: '.' :: List.replicate (-((ds.length : ℤ) + d.exponent)).toNat '0' ++ ds =
        ['0'] ++ '.' :: (List.replicate (-((ds.length : ℤ) + d.exponent)).toNat '0' ++ ds) := rfl
    rw [shape]
    refine ⟨.point (by decide) (by simp) ((digits_replicate_zero _).append digits), ?_⟩
    rw [ofLiteral_point (by decide), List.singleton_append, digitsValue_eq, Nat.ofDigitChars_cons,
      Nat.sub_self, Nat.mul_zero, Nat.add_zero, ← digitsValue_eq, digitsValue_zeros_append, value]
    have exponent : -(((-((ds.length : ℤ) + d.exponent)).toNat + ds.length : ℕ) : ℤ) =
        d.exponent := by
      omega
    simp only [Decimal.value, List.length_append, List.length_replicate, exponent]

end Literal

/-- The text of a finite value with the sign bit clear is a literal that reads back to the
value. -/
theorem Binary64.positional_reads_back {x : Binary64} (sign : x.signBit = false)
    (finite : x.isFinite = true) :
    Literal x.positional.toList ∧ (Decimal.ofLiteral x.positional.toList).toBinary64 = x := by
  rw [positional_of_number (isNaN_of_isFinite finite) sign]
  unfold magnitudeText
  rw [finite]
  by_cases empty : x.significand = 0
  · have zeroText : "0".toList = ['0'] := rfl
    simp only [Bool.true_eq_false, if_false, empty, if_true, zeroText]
    refine ⟨.whole (by decide) (by simp), ?_⟩
    rw [ofLiteral_whole (by decide), eq_zero sign empty]
    rfl
  · simp only [Bool.true_eq_false, if_false, empty]
    obtain ⟨literal, value⟩ := x.shortest.positional_literal
    refine ⟨literal, Decimal.toBinary64_eq sign finite (Nat.pos_of_ne_zero empty) ?_⟩
    rw [value]
    exact shortest_holds (Nat.pos_of_ne_zero empty)

end TemplateLex
