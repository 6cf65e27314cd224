import TemplateLex.Proofs.NearestEven
import TemplateLex.Proofs.RoundTrip

/-! Reading a number at the cursor: the longest literal that starts at the digit, an error at a second
point or at the end of the input, and otherwise the binary64 value nearest to what it writes. -/
namespace TemplateLex

/-- The rational number a literal writes: the digits before the point, and those after it as
tenths, hundredths and so on. -/
def literalValue (m : List Char) : ℚ :=
  let whole := m.takeWhile (· ≠ '.')
  let fraction := (m.dropWhile (· ≠ '.')).drop 1
  Nat.ofDigitChars 10 whole 0 + (Nat.ofDigitChars 10 fraction 0 : ℚ) / 10 ^ fraction.length

/-- `m` is the longest prefix of `u` that is a literal. -/
def LongestLiteral (u m : List Char) : Prop :=
  m <+: u ∧ Literal m ∧ ∀ m', m' <+: u → Literal m' → m'.length ≤ m.length

section Value

theorem value_ofLiteral {m : List Char} (literal : Literal m) :
    (Decimal.ofLiteral m).value = literalValue m := by
  cases literal with
  | whole digits nonempty =>
    have take : m.takeWhile (· ≠ '.') = m :=
      List.takeWhile_eq_self_iff.mpr (ne_point_of_digits digits)
    have drop : m.dropWhile (· ≠ '.') = [] :=
      List.dropWhile_eq_nil_iff.mpr (ne_point_of_digits digits)
    rw [ofLiteral_whole digits, literalValue, take, drop, Decimal.value, digitsValue_eq]
    simp
  | @point ds fs digits nonempty fraction =>
    have take : (ds ++ '.' :: fs).takeWhile (· ≠ '.') = ds := by
      rw [List.takeWhile_append_of_pos (ne_point_of_digits digits)]
      simp
    have drop : (ds ++ '.' :: fs).dropWhile (· ≠ '.') = '.' :: fs := by
      rw [List.dropWhile_append_of_pos (ne_point_of_digits digits)]
      simp
    have joined : (digitsValue (ds ++ fs) : ℚ) =
        10 ^ fs.length * Nat.ofDigitChars 10 ds 0 + Nat.ofDigitChars 10 fs 0 := by
      rw [digitsValue_eq, Nat.ofDigitChars_append, Nat.ofDigitChars_eq_ofDigitChars_zero]
      push_cast
      ring
    rw [ofLiteral_point digits, literalValue, take, drop, Decimal.value, joined]
    simp only [List.drop_one, List.tail_cons, zpow_neg, zpow_natCast]
    field_simp

/-- A decimal reads as its value rounded to nearest, ties to even. -/
theorem Decimal.toBinary64_rounds (d : Decimal) :
    Binary64.RoundsToNearestEven d.value d.toBinary64 := by
  rw [d.value_eq_div]
  exact Binary64.nearest_rounds _ (by rw [Nat.pow_eq]; positivity)

end Value

section Run

theorem longestRun_numberStep_stop {dotSeen : Bool} {rest : List Char}
    (stop : ∀ y ∈ rest.head?, y.isDigit = false ∧ (dotSeen = true ∨ y ≠ '.')) :
    longestRun numberStep dotSeen rest = [] := by
  cases rest with
  | nil => rfl
  | cons y rest =>
    obtain ⟨notDigit, pointSeen⟩ := stop y rfl
    have none : numberStep dotSeen y = none := by
      rcases pointSeen with rfl | notPoint
      · simp [numberStep, notDigit]
      · simp [numberStep, notDigit, notPoint]
    simp [longestRun, none]

theorem prefix_takeWhile_digits {ds u : List Char} (digits : Digits ds) (leading : ds <+: u) :
    ds <+: u.takeWhile Char.isDigit := by
  obtain ⟨t, rfl⟩ := leading
  rw [List.takeWhile_append_of_pos digits]
  exact List.prefix_append ds _

theorem point_prefix {ds fs u : List Char} (digits : Digits ds) (leading : ds ++ '.' :: fs <+: u) :
    u.takeWhile Char.isDigit = ds ∧ ∃ t, u.dropWhile Char.isDigit = '.' :: (fs ++ t) := by
  obtain ⟨t, rfl⟩ := leading
  have notDigit : '.'.isDigit = false := rfl
  refine ⟨?_, t, ?_⟩
  · rw [List.append_assoc, List.takeWhile_append_of_pos digits]
    simp [notDigit]
  · rw [List.append_assoc, List.dropWhile_append_of_pos digits]
    simp [notDigit]

theorem stops_dropWhile (p : Char → Bool) (u : List Char) :
    ∀ y ∈ (u.dropWhile p).head?, p y = false := by
  intro y member
  have stops := List.head?_dropWhile_not p u
  rw [Option.mem_def.mp member] at stops
  exact stops

theorem longestLiteral_numberRun {x : Char} (digit : x.isDigit = true) (u : List Char) :
    LongestLiteral (x :: u) (numberRun (x :: u)) := by
  set ds := (x :: u).takeWhile Char.isDigit with hds
  set rest := (x :: u).dropWhile Char.isDigit with hrest
  have whole : x :: u = ds ++ rest := List.takeWhile_append_dropWhile.symm
  have digits : Digits ds := fun c member => List.mem_takeWhile_imp member
  have nonempty : ds ≠ [] := by simp [hds, digit]
  have stop : ∀ y ∈ rest.head?, y.isDigit = false := stops_dropWhile _ _
  have run : numberRun (x :: u) = ds ++ longestRun numberStep false rest := by
    rw [numberRun, whole, longestRun_digits digits]
  by_cases point : rest.head? = some '.'
  · obtain ⟨rest', hpoint⟩ := List.head?_eq_some_iff.mp point
    set fs := rest'.takeWhile Char.isDigit with hfs
    set tail := rest'.dropWhile Char.isDigit with htail
    have fraction : Digits fs := fun c member => List.mem_takeWhile_imp member
    have after : rest' = fs ++ tail := List.takeWhile_append_dropWhile.symm
    have stop' : ∀ y ∈ tail.head?, y.isDigit = false := stops_dropWhile _ _
    have runPoint : numberRun (x :: u) = ds ++ '.' :: fs := by
      have dot : numberStep false '.' = some true := rfl
      rw [run, hpoint, after]
      simp only [longestRun, dot]
      rw [longestRun_digits fraction,
        longestRun_numberStep_stop fun y member => ⟨stop' y member, .inl rfl⟩, List.append_nil]
    rw [runPoint]
    refine ⟨⟨tail, by rw [whole, hpoint, after]; simp⟩, .point digits nonempty fraction, ?_⟩
    intro m' leading literal
    cases literal with
    | whole digits' _ =>
      have shorter := (prefix_takeWhile_digits digits' leading).length_le
      rw [← hds] at shorter
      simp only [List.length_append, List.length_cons]
      omega
    | @point ds' fs' digits' _ fraction' =>
      obtain ⟨same, t, shape⟩ := point_prefix digits' leading
      rw [← hds] at same
      rw [← hrest, hpoint] at shape
      have tail : fs' <+: rest' := ⟨t, (List.cons.inj shape).2.symm⟩
      have shorter := (prefix_takeWhile_digits fraction' tail).length_le
      rw [← hfs] at shorter
      subst same
      simp only [List.length_append, List.length_cons]
      omega
  · have runWhole : numberRun (x :: u) = ds := by
      rw [run, longestRun_numberStep_stop fun y member =>
        ⟨stop y member, .inr fun same => point (same ▸ member)⟩, List.append_nil]
    rw [runWhole]
    refine ⟨⟨rest, whole.symm⟩, .whole digits nonempty, ?_⟩
    intro m' leading literal
    cases literal with
    | whole digits' _ => exact (prefix_takeWhile_digits digits' leading).length_le
    | @point ds' fs' digits' _ fraction' =>
      obtain ⟨-, t, shape⟩ := point_prefix digits' leading
      rw [← hrest] at shape
      exact absurd (by rw [shape]; rfl) point

theorem not_blank_of_digit {x : Char} (digit : x.isDigit = true) : isBlank x = false := by
  cases blank : isBlank x with
  | false => rfl
  | true =>
    simp only [isBlank, Bool.or_eq_true, decide_eq_true_eq] at blank
    rcases blank with ((rfl | rfl) | rfl) | rfl <;> exact absurd digit (by decide)

theorem LongestLiteral.eq {u m m' : List Char} (first : LongestLiteral u m)
    (second : LongestLiteral u m') : m = m' := by
  have le := second.2.2 m first.1 first.2.1
  have ge := first.2.2 m' second.1 second.2.1
  exact (List.prefix_of_prefix_length_le first.1 second.1 le).eq_of_length (by omega)

end Run

/-- Reading a number. At blanks and then a digit, a step reads the blanks and the longest literal
`m` that starts at the digit, and `m` is the text the value is read from. A point right after
`m` is a second point, an error located at it; the input ending with `m` is an error too.
Otherwise the step makes the number that `m` writes, rounded to nearest, ties to even, or
infinity past the largest finite value: its sign bit is clear and it is no NaN. -/
theorem step_number_literal {c : Cursor} {w u m : List Char} {x : Char}
    (split : c.rest = w ++ x :: u) (blank : Blanks w) (digit : x.isDigit = true)
    (longest : LongestLiteral (x :: u) m) :
    let after := c.skip (w.length + m.length)
    let next := (x :: u).drop m.length
    c.step.2 = after ∧ numberRun (x :: u) = m ∧
      (next.head? = some '.' → c.step.1 = .error ⟨.unexpectedDot, after.location⟩) ∧
      (next = [] → c.step.1 = .error ⟨.unexpectedEnd, after.location⟩) ∧
      (∀ y ∈ next.head?, y ≠ '.' → ∃ v, c.step.1 = .ok ⟨.number v, c.location.advanceAll w⟩ ∧
        Binary64.RoundsToNearestEven (literalValue m) v ∧ v.signBit = false ∧
        (v.isFinite = true ∨ v = Binary64.infinity)) := by
  intro after next
  have run : numberRun (x :: u) = m := (longestLiteral_numberRun digit u).eq longest
  have stop := not_blank_of_digit digit
  have nonempty : m ≠ [] := by
    obtain ⟨d, rest, rfl, -⟩ := longest.2.1.head
    exact List.cons_ne_nil d rest
  have scan : scanToken (x :: u) = endRun m next
      (if next.head? = some '.' then .error .unexpectedDot
        else .ok (.number (Decimal.ofLiteral m).toBinary64)) := by
    rw [scanToken_digit digit, scanNumber, run]
  have step := Cursor.step_of_blanks split blank stop
  rw [scan] at step
  have taken : ∀ make, (endRun m next make).taken = m.length := by
    intro make
    cases next with
    | nil => simp [endRun, nonempty]
    | cons y rest => rw [endRun_follow nonempty]
  refine ⟨by rw [step, taken], run, fun dot => ?_, fun ends => ?_, fun y first notDot => ?_⟩
  · obtain ⟨rest, hnext⟩ := List.head?_eq_some_iff.mp dot
    rw [step, hnext, endRun_follow nonempty]
    simp [after]
  · rw [step, ends]
    simp [endRun, nonempty, after]
  · obtain ⟨rest, hnext⟩ := List.head?_eq_some_iff.mp first
    have rounds := value_ofLiteral longest.2.1 ▸ Decimal.toBinary64_rounds (Decimal.ofLiteral m)
    refine ⟨_, ?_, rounds, rounds.signBit_finite⟩
    rw [step, hnext, endRun_follow nonempty]
    simp [notDot]

theorem second_point_after_literal :
    ((Cursor.ofList ['1', '.', '2', '.', '3', ' ']).rest = [] ++ '1' :: ['.', '2', '.', '3', ' '] ∧
      Blanks [] ∧ '1'.isDigit = true ∧
      LongestLiteral ['1', '.', '2', '.', '3', ' '] ['1', '.', '2']) ∧
    (Cursor.ofList ['1', '.', '2', '.', '3', ' ']).step.1 = .error ⟨.unexpectedDot, ⟨1, 4⟩⟩ := by
  have split : (Cursor.ofList ['1', '.', '2', '.', '3', ' ']).rest =
      [] ++ '1' :: ['.', '2', '.', '3', ' '] := rfl
  have blank : Blanks [] := by decide
  have digit : '1'.isDigit = true := by decide
  have longest : LongestLiteral ['1', '.', '2', '.', '3', ' '] ['1', '.', '2'] := by
    have run := longestLiteral_numberRun digit ['.', '2', '.', '3', ' ']
    rwa [show numberRun ['1', '.', '2', '.', '3', ' '] = ['1', '.', '2'] by decide] at run
  obtain ⟨-, -, dot, -⟩ := step_number_literal split blank digit longest
  exact ⟨⟨split, blank, digit, longest⟩, dot rfl⟩

end TemplateLex
