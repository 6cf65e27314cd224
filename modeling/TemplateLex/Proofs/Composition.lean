import TemplateLex.Proofs.ReadStep
import Mathlib.Tactic.SplitIfs

/-! Reading is compositional at a clean boundary: a text that reads without an error reads the same
in front of more text, and what follows then reads as it would alone, its locations moved to go on
from where the first text ended. -/
namespace TemplateLex

section Runs

variable {σ : Type} (next : σ → Char → Option σ)

theorem longestRun_append (s : σ) (xs ys : List Char)
    (stopped : xs.drop (longestRun next s xs).length ≠ []) :
    longestRun next s (xs ++ ys) = longestRun next s xs := by
  induction xs generalizing s with
  | nil => simp at stopped
  | cons c rest ih =>
    rw [List.cons_append]
    unfold longestRun
    unfold longestRun at stopped
    cases step : next s c with
    | none => rfl
    | some s' =>
      simp only [step, List.length_cons, List.drop_succ_cons] at stopped ⊢
      rw [ih s' stopped]

end Runs

theorem endRun_ok {run after : List Char} {make : Except ErrorKind Token} {t : Token}
    (ok : (endRun run after make).outcome = .ok t) : after ≠ [] ∧ make = .ok t := by
  unfold endRun at ok
  split at ok
  · cases ok
  · split at ok
    · cases ok
    · rename_i pending
      exact ⟨by simpa using pending, ok⟩

theorem endRun_of_ne_nil {run after after' : List Char} (make : Except ErrorKind Token)
    (pending : after ≠ []) (pending' : after' ≠ []) :
    endRun run after' make = endRun run after make := by
  simp [endRun, pending, pending']

theorem drop_run_append {run xs : List Char} (bound : run.length ≤ xs.length) (ys : List Char) :
    (xs ++ ys).drop run.length = xs.drop run.length ++ ys :=
  List.drop_append_of_le_length bound

theorem scanNumber_append {cs : List Char} {t : Token} (ok : (scanNumber cs).outcome = .ok t)
    (more : List Char) : scanNumber (cs ++ more) = scanNumber cs := by
  simp only [scanNumber] at ok ⊢
  have pending := (endRun_ok ok).1
  have run : numberRun (cs ++ more) = numberRun cs := longestRun_append _ _ _ _ pending
  have bound : (numberRun cs).length ≤ cs.length := length_longestRun_le _ _ _
  have head : (cs.drop (numberRun cs).length ++ more).head? = (cs.drop (numberRun cs).length).head? :=
    by cases after : cs.drop (numberRun cs).length with
      | nil => exact absurd after pending
      | cons x xs => rfl
  simp only [run, drop_run_append bound, head]
  exact endRun_of_ne_nil _ pending (by simp [pending])

theorem scanName_append {cs : List Char} {t : Token} (ok : (scanName cs).outcome = .ok t)
    (more : List Char) : scanName (cs ++ more) = scanName cs := by
  simp only [scanName] at ok ⊢
  have pending := (endRun_ok ok).1
  have run : (cs ++ more).takeWhile isNameChar = cs.takeWhile isNameChar := by
    rw [List.takeWhile_append, if_neg]
    intro whole
    apply pending
    simp [whole]
  rw [run, drop_run_append (length_takeWhile_le _ _),
    endRun_of_ne_nil _ pending (by simp [pending])]

theorem scanOperator_append {cs : List Char} {t : Token} (ok : (scanOperator cs).outcome = .ok t)
    (more : List Char) : scanOperator (cs ++ more) = scanOperator cs := by
  simp only [scanOperator] at ok ⊢
  have pending := (endRun_ok ok).1
  have run : operatorRun (cs ++ more) = operatorRun cs := longestRun_append _ _ _ _ pending
  have bound : (operatorRun cs).length ≤ cs.length := length_longestRun_le _ _ _
  rw [run, drop_run_append bound, endRun_of_ne_nil _ pending (by simp [pending])]

theorem scanString_append {quote : Char} {cs : List Char} {t : Token}
    (ok : (scanString quote cs).outcome = .ok t) (more : List Char) :
    scanString quote (cs ++ more) = scanString quote cs := by
  cases body : (Quoted.decodeBody quote cs).2 with
  | ok text => simp only [scanString, Quoted.decodeBody_append body more]
  | error failure =>
    cases failure <;> simp [scanString, body] at ok

theorem not_bracket_of_start {x : Char} (start : isOperatorStart x = true ∨ isNameStart x = true) :
    x ≠ '(' ∧ x ≠ ')' ∧ x ≠ '\x7b' ∧ x ≠ '\x7d' := by
  refine ⟨?_, ?_, ?_, ?_⟩ <;> (rintro rfl; rcases start with start | start <;> cases start)

/-- A scan that makes a token makes it whatever follows what it read. -/
theorem scanToken_append {cs : List Char} {t : Token} (ok : (scanToken cs).outcome = .ok t)
    (more : List Char) : scanToken (cs ++ more) = scanToken cs := by
  cases cs with
  | nil => rw [scanToken_nil] at ok; cases ok
  | cons x u =>
    rw [List.cons_append]
    unfold scanToken at ok ⊢
    dsimp only at ok ⊢
    -- the dispatch looks at the first character only, which `more` does not change; the cases
    -- are taken one by one, as splitting all the conditions at once is slow
    by_cases quote : (x = '"' || x = '\'') = true
    · simp only [if_pos quote] at ok ⊢
      exact scanString_append ok more
    simp only [if_neg quote] at ok ⊢
    by_cases digit : x.isDigit = true
    · simp only [if_pos digit] at ok ⊢
      exact scanNumber_append ok more
    simp only [if_neg digit] at ok ⊢
    by_cases operator : isOperatorStart x = true
    · obtain ⟨notOpen, notClose, notLeft, notRight⟩ := not_bracket_of_start (.inl operator)
      simp only [if_neg notOpen, if_neg notClose, if_neg notLeft, if_neg notRight,
        if_pos operator] at ok ⊢
      exact scanOperator_append ok more
    by_cases name : isNameStart x = true
    · obtain ⟨notOpen, notClose, notLeft, notRight⟩ := not_bracket_of_start (.inr name)
      simp only [if_neg notOpen, if_neg notClose, if_neg notLeft, if_neg notRight,
        if_neg operator, if_pos name] at ok ⊢
      exact scanName_append ok more
    simp only [if_neg operator, if_neg name]

namespace Cursor

/-- The cursor with `more` put after the characters it has still to read. -/
def append (c : Cursor) (more : List Char) : Cursor := { c with rest := c.rest ++ more }

theorem skip_append {c : Cursor} {n : Nat} (bound : n ≤ c.rest.length) (more : List Char) :
    (c.append more).skip n = (c.skip n).append more := by
  simp [skip, append, List.drop_append_of_le_length bound, List.take_append_of_le_length bound]

theorem read_append {c : Cursor} {t : Located Token} (ok : c.read.1 = .ok t) (more : List Char) :
    (c.append more).read = (.ok t, c.read.2.append more) := by
  obtain ⟨w, u, split, blank, -, cases⟩ := read_cases c
  rcases cases with ⟨-, done⟩ | ⟨t', scan, read⟩ | ⟨k, -, -, read⟩
  · rw [done] at ok; cases ok
  · rw [read] at ok ⊢
    cases ok
    have split' : (c.append more).rest = w ++ (u ++ more) := by simp [append, split]
    have scan' : (scanToken (u ++ more)).outcome = .ok t' := by
      rw [scanToken_append scan more, scan]
    have bound : w.length + (scanToken u).taken ≤ c.rest.length := by
      have taken := scanToken_taken_le u
      simp only [split, List.length_append]
      omega
    rw [read_of_scan_ok split' blank scan', scanToken_append scan more, skip_append bound]
    rfl
  · rw [read] at ok; cases ok

theorem step_append {c : Cursor} {t : Located Token} (ok : c.step.1 = .ok t) (more : List Char) :
    (c.append more).step = (.ok t, c.step.2.append more) := by
  rw [step_eq_read] at ok
  rw [step_eq_read, step_eq_read]
  exact read_append ok more

/-- A cursor that reads its text to the end without an error reads the same in front of `more`,
and then goes on reading `more` from where the text ended. -/
theorem readAll_append {c : Cursor} (clean : c.readAll.error = none) (more : List Char) :
    (c.append more).readAll =
      ⟨c.readAll.tokens ++ ((c.append more).skip c.rest.length).readAll.tokens,
        ((c.append more).skip c.rest.length).readAll.error⟩ := by
  fun_induction readAll c with
  | case1 c done => simp [done]
  | case2 c pending t c' step r ih =>
    subst r
    have stepped : (c.append more).step = (.ok t, c'.append more) := by
      simpa [step] using step_append (c := c) (by rw [step]) more
    have pending' : (c.append more).rest ≠ [] := by simp [append, pending]
    obtain ⟨n, bound, moved⟩ := read_skips c
    rw [← step_eq_read, step] at moved
    dsimp only at moved
    subst moved
    have last : ((c.skip n).append more).skip (c.skip n).rest.length =
        (c.append more).skip c.rest.length := by
      rw [← skip_append bound, skip_skip]
      congr 1
      simp only [rest_skip, List.length_drop]
      omega
    rw [readAll_of_step_ok pending' stepped, ih clean, last]
    simp
  | case3 c pending e c' step => cases clean

end Cursor

namespace Location

/-- Where `l`, a location of a text read from the start, lands when that text is read from `base`
on: its first line goes on `base`'s line, its later lines come below it. -/
def shift (base l : Location) : Location :=
  if l.line = 1 then ⟨base.line, base.column + l.column - 1⟩ else ⟨base.line + l.line - 1, l.column⟩

/-- A location whose counts start from one. -/
structure Valid (l : Location) : Prop where
  line_pos : 1 ≤ l.line
  column_pos : 1 ≤ l.column

theorem valid_start : start.Valid := ⟨Nat.le_refl 1, Nat.le_refl 1⟩

theorem Valid.advance {l : Location} (valid : l.Valid) (c : Char) : (l.advance c).Valid := by
  have line := valid.line_pos
  unfold Location.advance
  split
  · exact ⟨by simp, Nat.le_refl 1⟩
  · exact ⟨line, by simp⟩

theorem Valid.advanceAll {l : Location} (valid : l.Valid) (cs : List Char) :
    (l.advanceAll cs).Valid := by
  induction cs generalizing l with
  | nil => exact valid
  | cons c cs ih => exact ih (valid.advance c)

theorem shift_start (base : Location) : base.shift start = base := by
  simp [shift, start]

theorem shift_advance (base : Location) {l : Location} (valid : l.Valid) (c : Char) :
    (base.shift l).advance c = base.shift (l.advance c) := by
  have line := valid.line_pos
  have column := valid.column_pos
  unfold Location.advance
  by_cases feed : c = '\n'
  · have below : l.line + 1 ≠ 1 := by omega
    simp only [feed, if_true, shift, below, if_false]
    split <;> simp only [Location.mk.injEq, and_true] <;> omega
  · simp only [feed, if_false, shift]
    split
    · simp only [Location.mk.injEq, true_and]
      omega
    · rfl

theorem shift_advanceAll (base : Location) {l : Location} (valid : l.Valid) (cs : List Char) :
    (base.shift l).advanceAll cs = base.shift (l.advanceAll cs) := by
  induction cs generalizing l with
  | nil => rfl
  | cons c cs ih =>
    rw [advanceAll_cons, shift_advance base valid, ih (valid.advance c), advanceAll_cons]

end Location

def Located.shift {α : Type} (base : Location) (t : Located α) : Located α :=
  ⟨t.value, base.shift t.location⟩

def LexError.shift (base : Location) (e : LexError) : LexError := ⟨e.kind, base.shift e.location⟩

def Outcome.shift (base : Location) : Outcome → Outcome
  | .ok t => .ok (t.shift base)
  | .error e => .error (e.shift base)

namespace Cursor

/-- The cursor `c` of a text, when that text is read from `base` on after `before` characters. -/
def rebase (base : Location) (before : Nat) (c : Cursor) : Cursor :=
  ⟨c.rest, before + c.consumed, base.shift c.location⟩

theorem skip_rebase (base : Location) (before : Nat) {c : Cursor} (valid : c.location.Valid)
    (n : Nat) : (c.rebase base before).skip n = (c.skip n).rebase base before := by
  simp [rebase, skip, Location.shift_advanceAll base valid, Nat.add_assoc]

/-- A read depends on the location only through where it starts. -/
theorem read_rebase (base : Location) (before : Nat) {c : Cursor} (valid : c.location.Valid) :
    (c.rebase base before).read = (Outcome.shift base c.read.1, c.read.2.rebase base before) := by
  obtain ⟨w, u, split, blank, stop, cases⟩ := read_cases c
  have split' : (c.rebase base before).rest = w ++ u := split
  have start : (c.rebase base before).location.advanceAll w = base.shift (c.location.advanceAll w) :=
    Location.shift_advanceAll base valid w
  rcases cases with ⟨empty, read⟩ | ⟨t, scan, read⟩ | ⟨k, pending, scan, read⟩
  · subst empty
    rw [List.append_nil] at split'
    rw [read_of_blanks split' blank, read, start, skip_rebase base before valid]
    rfl
  · rw [read_of_scan_ok split' blank scan, read, start, skip_rebase base before valid]
    rfl
  · rw [read_of_scan_error split' blank stop pending scan, read, skip_rebase base before valid]
    rfl

theorem step_rebase (base : Location) (before : Nat) {c : Cursor} (valid : c.location.Valid) :
    (c.rebase base before).step = (Outcome.shift base c.step.1, c.step.2.rebase base before) := by
  rw [step_eq_read, step_eq_read]
  exact read_rebase base before valid

theorem readAll_rebase (base : Location) (before : Nat) {c : Cursor} (valid : c.location.Valid) :
    (c.rebase base before).readAll =
      ⟨c.readAll.tokens.map (·.shift base), c.readAll.error.map (·.shift base)⟩ := by
  fun_induction readAll c with
  | case1 c done => exact readAll_of_rest_nil done
  | case2 c pending t c' step r ih =>
    subst r
    obtain ⟨n, -, moved⟩ := read_skips c
    rw [← step_eq_read, step] at moved
    dsimp only at moved
    have valid' : c'.location.Valid := by
      rw [moved]
      exact valid.advanceAll _
    have stepped := step_rebase base before valid
    rw [step] at stepped
    dsimp only [Outcome.shift] at stepped
    rw [readAll_of_step_ok (c := c.rebase base before) pending stepped, ih valid']
    rfl
  | case3 c pending e c' step =>
    have stepped := step_rebase base before valid
    rw [step] at stepped
    dsimp only [Outcome.shift] at stepped
    exact readAll_of_step_error (c := c.rebase base before) pending stepped

end Cursor

/-- Tokenizing is compositional where the first text reads without an error: `s₁ ++ s₂` reads as
the tokens of `s₁` followed by those of `s₂`, and fails exactly when `s₂` does, with every location
from `s₂` moved to continue from the location after `s₁` (the first line by columns, later lines by
lines). -/
theorem tokenize_append (s₁ s₂ : String) (clean : (tokenize s₁).error = none) :
    (tokenize (s₁ ++ s₂)).tokens = (tokenize s₁).tokens ++
        (tokenize s₂).tokens.map (·.shift (Location.start.advanceAll s₁.toList)) ∧
      (tokenize (s₁ ++ s₂)).error =
        (tokenize s₂).error.map (·.shift (Location.start.advanceAll s₁.toList)) := by
  have whole : Cursor.ofString (s₁ ++ s₂) = (Cursor.ofString s₁).append s₂.toList := by
    simp [Cursor.ofString, Cursor.ofList, Cursor.append, String.toList_append]
  have second : ((Cursor.ofString s₁).append s₂.toList).skip (Cursor.ofString s₁).rest.length =
      (Cursor.ofString s₂).rebase (Location.start.advanceAll s₁.toList) s₁.toList.length := by
    simp [Cursor.ofString, Cursor.ofList, Cursor.append, Cursor.skip, Cursor.rebase,
      Location.shift_start]
  have joined := Cursor.readAll_append clean s₂.toList
  rw [second, Cursor.readAll_rebase _ _ Location.valid_start] at joined
  simp only [tokenize]
  rw [whole, joined]
  exact ⟨rfl, rfl⟩

theorem tokenize_append_parenthesized :
    (tokenize "(a)").error = none ∧
      (tokenize ("(a)" ++ " b")).tokens = (tokenize "(a)").tokens ++
        (tokenize " b").tokens.map (·.shift (Location.start.advanceAll "(a)".toList)) ∧
      (tokenize ("(a)" ++ " b")).error =
        (tokenize " b").error.map (·.shift (Location.start.advanceAll "(a)".toList)) :=
  have clean : (tokenize "(a)").error = none := by decide +kernel
  ⟨clean, tokenize_append "(a)" " b" clean⟩

end TemplateLex
