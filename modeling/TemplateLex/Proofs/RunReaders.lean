import TemplateLex.Proofs.ReadWhile

/-! The readers built on run reading are the scans. Seen through what it keeps, each predicate takes
the steps of the reader whose longest run the scan takes; with every token read this way, the
dispatch on the character under the cursor is the step. -/
namespace TemplateLex

namespace Cursor

variable {σ : Type}

theorem accepted_classCall (p : Char → Bool) (c : Cursor) :
    c.accepted (classCall p) () = c.rest.takeWhile p := by
  unfold accepted
  induction c.rest with
  | nil => rfl
  | cons ch cs ih =>
    cases answer : p ch <;> simp [longestRun, accepting, classCall, answer, ih]

theorem accepted_eq_rest_iff (call : σ → Char → Bool × σ) (s : σ) (c : Cursor) :
    c.accepted call s = c.rest ↔ c.rest.drop (c.accepted call s).length = [] := by
  obtain ⟨after, split⟩ : c.accepted call s <+: c.rest :=
    longestRun_prefix (accepting call) s c.rest
  constructor
  · intro whole
    rw [whole, List.drop_length]
  · intro nothing
    rw [← split, List.drop_left] at nothing
    rw [← split, nothing, List.append_nil]

theorem readRun_eq (call : σ → Char → Bool × σ) (s : σ) (make : List Char → Except ErrorKind Token)
    (c : Cursor) :
    c.readRun call s make =
      (endRun (c.accepted call s) (c.rest.drop (c.accepted call s).length)
        (make (c.accepted call s))).locate c := by
  rw [readRun, readWhile_eq]
  by_cases empty : c.accepted call s = []
  · rw [if_pos empty]
    simp [empty, endRun]
  · rw [if_neg empty]
    have nonempty : (c.accepted call s).isEmpty = false := List.isEmpty_eq_false_iff.mpr empty
    by_cases whole : c.accepted call s = c.rest
    · have nothing := (accepted_eq_rest_iff call s c).mp whole
      rw [if_pos whole]
      simp only [endRun, nonempty, nothing]
      simp [whole]
    · have pending : c.rest.drop (c.accepted call s).length ≠ [] :=
        mt (accepted_eq_rest_iff call s c).mpr whole
      rw [if_neg whole]
      simp [nonempty, pending, endRun, Scan.locate]

theorem readName_eq_scanName (c : Cursor) : c.readName = (scanName c.rest).locate c := by
  rw [readName, readRun_eq, accepted_classCall, scanName]

section Operators

/-- What is left to read of each spelling the operator predicate keeps. -/
def OperatorState.tails (st : OperatorState) : List (List Char) :=
  st.remaining.map (·.drop st.index)

/-- Seen as what is left of its spellings, the operator predicate narrows them as the operator scan
does. -/
theorem accepting_operatorCall (st : OperatorState) (ch : Char) :
    (accepting operatorCall st ch).map OperatorState.tails = operatorStep st.tails ch := by
  have narrowed : (st.tails.filter (·.head? = some ch)).map List.tail =
      (st.remaining.filter (·[st.index]? = some ch)).map (·.drop (st.index + 1)) := by
    simp [OperatorState.tails, List.filter_map, Function.comp_def, List.head?_drop,
      List.tail_drop]
  simp only [accepting, operatorCall, operatorStep, narrowed, List.isEmpty_map]
  by_cases none : (st.remaining.filter (·[st.index]? = some ch)).isEmpty <;>
    simp [none, OperatorState.tails]

theorem accepted_operatorCall (c : Cursor) :
    c.accepted operatorCall ⟨operatorSpellings, 0⟩ = operatorRun c.rest := by
  rw [accepted, longestRun_of_follows OperatorState.tails accepting_operatorCall]
  simp [OperatorState.tails, operatorRun]

theorem readOperator_eq_scanOperator (c : Cursor) :
    c.readOperator = (scanOperator c.rest).locate c := by
  rw [readOperator, readRun_eq, accepted_operatorCall, scanOperator]

end Operators

section Numbers

/-- Seen through whether it took a point, the number predicate takes the number scan's steps. -/
theorem accepting_numberCall (st : NumberState) (ch : Char) :
    (accepting numberCall st ch).map NumberState.hasDot = numberStep st.hasDot ch := by
  by_cases point : ch = '.'
  · subst point
    cases dot : st.hasDot <;> simp [accepting, numberCall, numberStep, dot]
  · cases digit : ch.isDigit <;> simp [accepting, numberCall, numberStep, point, digit]

theorem accepted_numberCall (c : Cursor) :
    c.accepted numberCall ⟨false, false⟩ = numberRun c.rest :=
  longestRun_of_follows NumberState.hasDot accepting_numberCall _ c.rest

theorem secondDot_afterCalls {st : NumberState} {run : List Char} (single : st.secondDot = false)
    (accepts : AcceptsAll numberCall st run) :
    (afterCalls numberCall st run).secondDot = false := by
  induction run generalizing st with
  | nil => exact single
  | cons ch run ih =>
    obtain ⟨taken, rest⟩ := accepts
    have single' : (numberCall st ch).2.secondDot = false := by
      by_cases point : ch = '.'
      · simpa [numberCall, point] using taken
      · simpa [numberCall, point] using single
    exact ih single' rest

theorem secondDot_of_refused {st : NumberState} {ch : Char} (single : st.secondDot = false)
    (refused : (numberCall st ch).1 = false) :
    (numberCall st ch).2.secondDot = decide (ch = '.') := by
  by_cases point : ch = '.'
  · simpa [numberCall, point] using refused
  · simpa [numberCall, point] using single

theorem secondDot_readWhile (c : Cursor) :
    (c.readWhile numberCall ⟨false, false⟩).2.2.secondDot =
      decide ((c.rest.drop (numberRun c.rest).length).head? = some '.') := by
  have accepts := acceptsAll_longestRun numberCall ⟨false, false⟩ c.rest
  have refuses := refuses_after_longestRun numberCall ⟨false, false⟩ c.rest
  have leading := longestRun_prefix (accepting numberCall) ⟨false, false⟩ c.rest
  have run : longestRun (accepting numberCall) ⟨false, false⟩ c.rest = numberRun c.rest :=
    accepted_numberCall c
  rw [readWhile_eq, accepted_numberCall]
  rw [run] at accepts refuses leading
  obtain ⟨after, split⟩ := leading
  generalize numberRun c.rest = run at accepts refuses split ⊢
  rw [← split] at refuses ⊢
  rw [List.take_length_add_append, afterCalls_append, List.drop_left]
  have single := secondDot_afterCalls rfl accepts
  cases after with
  | nil => simpa using single
  | cons ch after =>
    have refused := refuses ch (by simp)
    simpa using secondDot_of_refused single refused

theorem readNumber_of_single {c : Cursor}
    (single : (c.readWhile numberCall ⟨false, false⟩).2.2.secondDot = false) :
    c.readNumber = c.readRun numberCall ⟨false, false⟩
      fun run => .ok (.number (Decimal.ofLiteral run).toBinary64) := by
  unfold readNumber readRun
  generalize c.readWhile numberCall ⟨false, false⟩ = r at single ⊢
  obtain ⟨matched, c', st⟩ := r
  dsimp only at single ⊢
  rw [if_neg (by simp [single])]
  cases matched <;> rfl

theorem readNumber_of_second {c : Cursor}
    (second : (c.readWhile numberCall ⟨false, false⟩).2.2.secondDot = true) :
    c.readNumber = (.error ⟨.unexpectedDot, (c.readWhile numberCall ⟨false, false⟩).2.1.location⟩,
      (c.readWhile numberCall ⟨false, false⟩).2.1) := by
  unfold readNumber
  generalize c.readWhile numberCall ⟨false, false⟩ = r at second ⊢
  obtain ⟨matched, c', st⟩ := r
  dsimp only at second ⊢
  rw [if_pos second]

theorem readNumber_eq_scanNumber (c : Cursor) : c.readNumber = (scanNumber c.rest).locate c := by
  have second := secondDot_readWhile c
  by_cases point : (c.rest.drop (numberRun c.rest).length).head? = some '.'
  · have taken : numberRun c.rest ≠ [] := by
      intro empty
      rw [empty, List.length_nil, List.drop_zero] at point
      obtain ⟨tail, split⟩ := List.head?_eq_some_iff.mp point
      rw [split] at empty
      simp [numberRun, longestRun, numberStep] at empty
    have pending : c.rest.drop (numberRun c.rest).length ≠ [] := by
      intro nothing
      rw [nothing] at point
      cases point
    have cursor : (c.readWhile numberCall ⟨false, false⟩).2.1 =
        c.skip (numberRun c.rest).length := by
      rw [readWhile_eq, accepted_numberCall]
    rw [readNumber_of_second (second.trans (decide_eq_true point)), cursor]
    simp [scanNumber, endRun, taken, pending, point]
  · have single : (c.readWhile numberCall ⟨false, false⟩).2.2.secondDot = false := by
      rw [second]
      exact decide_eq_false point
    rw [readNumber_of_single single, readRun_eq, accepted_numberCall, scanNumber]
    simp only [if_neg point]

end Numbers

section Dispatch

theorem readWhile_blanks (c : Cursor) :
    (c.readWhile (classCall isBlank) ()).2.1 = c.skip (c.rest.takeWhile isBlank).length := by
  rw [readWhile_eq, accepted_classCall]

theorem readToken_eq {c : Cursor} {ch : Char} {rest : List Char} (split : c.rest = ch :: rest) :
    c.readToken ch rest = c.locatedAt ((scanToken (ch :: rest)).locate c) := by
  rw [readToken, readNumber_eq_scanNumber, readOperator_eq_scanOperator, readName_eq_scanName,
    split]
  simp only [scanToken]
  by_cases quote : (ch = '"' || ch = '\'') = true
  · simp only [if_pos quote]
  simp only [if_neg quote]
  by_cases digit : ch.isDigit = true
  · simp only [if_pos digit]
  simp only [if_neg digit]
  by_cases openParen : ch = '('
  · simp only [if_pos openParen]; rfl
  simp only [if_neg openParen]
  by_cases closeParen : ch = ')'
  · simp only [if_pos closeParen]; rfl
  simp only [if_neg closeParen]
  by_cases openBrace : ch = '\x7b'
  · simp only [if_pos openBrace]; rfl
  simp only [if_neg openBrace]
  by_cases closeBrace : ch = '\x7d'
  · simp only [if_pos closeBrace]; rfl
  simp only [if_neg closeBrace]
  by_cases operator : isOperatorStart ch = true
  · simp only [if_pos operator]
  simp only [if_neg operator]
  by_cases name : isNameStart ch = true
  · simp only [if_pos name]
  simp only [if_neg name]
  rfl

/-- Reading the next token with the blank run and every token read by its own reader is the step. -/
theorem readNext_eq_step (c : Cursor) : c.readNext = c.step := by
  unfold readNext
  split
  · rename_i brace
    obtain ⟨tail, split⟩ := List.head?_eq_some_iff.mp brace
    simp only [step, split]
  · rename_i brace
    obtain ⟨tail, split⟩ := List.head?_eq_some_iff.mp brace
    simp only [step, split]
  rw [step_eq_read]
  unfold read
  rw [readWhile_blanks]
  generalize c.skip (c.rest.takeWhile isBlank).length = b
  cases rest : b.rest with
  | nil => simp [rest]
  | cons ch tail =>
    simp only [rest, List.isEmpty_cons, Bool.false_eq_true, if_false, readToken_eq rest]
    generalize scanToken (ch :: tail) = sc
    rcases sc with ⟨n, outcome⟩
    cases outcome <;> rfl

end Dispatch

end Cursor

end TemplateLex
