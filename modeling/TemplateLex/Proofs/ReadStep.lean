import TemplateLex.Lexer.Tokenize
import TemplateLex.Proofs.StringCodec

/-! How one read moves through the text: it skips the blank run under the cursor and scans what
follows, leaving the cursor after a prefix of what was left. -/
namespace TemplateLex

def Blanks (w : List Char) : Prop := ∀ c ∈ w, isBlank c = true

instance : DecidablePred Blanks := fun w => decidable_of_iff (w.all isBlank = true) List.all_eq_true

theorem blanks_takeWhile (cs : List Char) : Blanks (cs.takeWhile isBlank) :=
  List.all_eq_true.mp List.all_takeWhile

theorem takeWhile_blanks_append {w u : List Char} (blank : Blanks w)
    (stop : ∀ x ∈ u.head?, isBlank x = false) : (w ++ u).takeWhile isBlank = w := by
  rw [List.takeWhile_append_of_pos blank]
  cases u with
  | nil => simp
  | cons x u =>
    have hx : isBlank x = false := stop x rfl
    simp [hx]

theorem scanToken_blank {x : Char} (blank : isBlank x = true) (u : List Char) :
    scanToken (x :: u) = ⟨0, .error .unknownToken⟩ := by
  simp only [isBlank, Bool.or_eq_true, decide_eq_true_eq] at blank
  rcases blank with ((rfl | rfl) | rfl) | rfl <;> rfl

theorem not_blank_of_scan_ok {x : Char} {u : List Char} {t : Token}
    (ok : (scanToken (x :: u)).outcome = .ok t) : isBlank x = false := by
  cases blank : isBlank x with
  | false => rfl
  | true => rw [scanToken_blank blank] at ok; cases ok

theorem scanToken_nil : scanToken [] = ⟨0, .error .unexpectedEnd⟩ := rfl

theorem length_longestRun_le {σ : Type} (next : σ → Char → Option σ) (s : σ) (cs : List Char) :
    (longestRun next s cs).length ≤ cs.length := by
  have leading := longestRun_prefix next s cs
  exact leading.length_le

theorem length_takeWhile_le (p : Char → Bool) (cs : List Char) :
    (cs.takeWhile p).length ≤ cs.length := by
  have leading := List.takeWhile_prefix p (l := cs)
  exact leading.length_le

theorem endRun_taken_le (run after : List Char) (make : Except ErrorKind Token) :
    (endRun run after make).taken ≤ run.length := by
  unfold endRun
  split
  · simp
  · split <;> simp

theorem scanToken_taken_le (cs : List Char) : (scanToken cs).taken ≤ cs.length := by
  cases cs with
  | nil => simp [scanToken_nil]
  | cons x u =>
    have number := length_longestRun_le numberStep false (x :: u)
    have name := length_takeWhile_le isNameChar (x :: u)
    have operator := length_longestRun_le operatorStep operatorSpellings (x :: u)
    unfold scanToken
    dsimp only
    repeat' split
    · have body := Quoted.decodeBody_taken_le x u
      simp [scanString]
      omega
    · exact Nat.le_trans (endRun_taken_le _ _ _) number
    · simp
    · simp
    · simp
    · simp
    · exact Nat.le_trans (endRun_taken_le _ _ _) operator
    · exact Nat.le_trans (endRun_taken_le _ _ _) name
    · simp

namespace Cursor

@[simp] theorem consumed_skip (c : Cursor) (n : Nat) :
    (c.skip n).consumed = c.consumed + (c.rest.take n).length := rfl

@[simp] theorem location_skip (c : Cursor) (n : Nat) :
    (c.skip n).location = c.location.advanceAll (c.rest.take n) := rfl

theorem skip_skip (c : Cursor) (a b : Nat) : (c.skip a).skip b = c.skip (a + b) := by
  have rest : (c.rest.drop a).drop b = c.rest.drop (a + b) := by rw [List.drop_drop]
  have taken : c.rest.take (a + b) = c.rest.take a ++ (c.rest.drop a).take b := List.take_add ..
  simp only [skip, rest, taken, Location.advanceAll_append, List.length_append, Nat.add_assoc]

theorem skip_length_append {c : Cursor} {w u : List Char} (split : c.rest = w ++ u) :
    c.skip w.length = ⟨u, c.consumed + w.length, c.location.advanceAll w⟩ := by
  simp [skip, split]

theorem step_eq_read (c : Cursor) : c.step = c.read := by
  unfold step
  split
  · rename_i tail brace
    have blank : ('{' :: tail).takeWhile isBlank = [] := rfl
    have scan : scanToken ('{' :: tail) = ⟨1, .ok .openTemplate⟩ := rfl
    simp [read, brace, blank, scan]
  · rename_i tail brace
    have blank : ('}' :: tail).takeWhile isBlank = [] := rfl
    have scan : scanToken ('}' :: tail) = ⟨1, .ok .closeTemplate⟩ := rfl
    simp [read, brace, blank, scan]
  · rfl

theorem read_of_scan_ok {c : Cursor} {w u : List Char} {t : Token} (split : c.rest = w ++ u)
    (blank : Blanks w) (ok : (scanToken u).outcome = .ok t) :
    c.read = (.ok ⟨t, c.location.advanceAll w⟩, c.skip (w.length + (scanToken u).taken)) := by
  cases u with
  | nil => rw [scanToken_nil] at ok; cases ok
  | cons x u =>
    have stop : ∀ y ∈ (x :: u).head?, isBlank y = false := by
      intro y member
      cases member
      exact not_blank_of_scan_ok ok
    have blanks := takeWhile_blanks_append blank stop
    rw [← skip_skip]
    simp only [read, split, blanks, skip_length_append split, List.isEmpty_cons]
    simp [ok]

theorem read_of_scan_error {c : Cursor} {w u : List Char} {k : ErrorKind}
    (split : c.rest = w ++ u) (blank : Blanks w) (stop : ∀ x ∈ u.head?, isBlank x = false)
    (nonempty : u ≠ []) (error : (scanToken u).outcome = .error k) :
    c.read = (.error ⟨k, (c.skip (w.length + (scanToken u).taken)).location⟩,
      c.skip (w.length + (scanToken u).taken)) := by
  have blanks := takeWhile_blanks_append blank stop
  have notEmpty : u.isEmpty = false := List.isEmpty_eq_false_iff.mpr nonempty
  rw [← skip_skip]
  simp only [read, split, blanks, skip_length_append split, notEmpty]
  simp [error]

theorem read_of_blanks {c : Cursor} {w : List Char} (split : c.rest = w) (blank : Blanks w) :
    c.read = (.error ⟨.unexpectedEnd, c.location.advanceAll w⟩, c.skip w.length) := by
  have blanks : c.rest.takeWhile isBlank = w := by
    rw [split]
    simpa using takeWhile_blanks_append (u := []) blank (by simp)
  have whole : c.rest = w ++ [] := by simp [split]
  simp [read, blanks, skip_length_append whole]

/-- Every read is one of three: blanks and then the end, blanks and then a token, or blanks and
then a failed scan. -/
theorem read_cases (c : Cursor) : ∃ w u, c.rest = w ++ u ∧ Blanks w ∧
    (∀ x ∈ u.head?, isBlank x = false) ∧
    (u = [] ∧ c.read = (.error ⟨.unexpectedEnd, c.location.advanceAll w⟩, c.skip w.length) ∨
     (∃ t, (scanToken u).outcome = .ok t ∧
       c.read = (.ok ⟨t, c.location.advanceAll w⟩, c.skip (w.length + (scanToken u).taken))) ∨
     (∃ k, u ≠ [] ∧ (scanToken u).outcome = .error k ∧
       c.read = (.error ⟨k, (c.skip (w.length + (scanToken u).taken)).location⟩,
         c.skip (w.length + (scanToken u).taken)))) := by
  have split : c.rest = c.rest.takeWhile isBlank ++ c.rest.dropWhile isBlank :=
    List.takeWhile_append_dropWhile.symm
  have blank := blanks_takeWhile c.rest
  have stop : ∀ x ∈ (c.rest.dropWhile isBlank).head?, isBlank x = false := by
    intro x member
    have nonempty : c.rest.dropWhile isBlank ≠ [] := by
      intro empty
      simp [empty] at member
    have head := List.head_dropWhile_not isBlank (l := c.rest) nonempty
    rw [List.head?_eq_some_head nonempty, Option.mem_def, Option.some.injEq] at member
    rwa [← member]
  refine ⟨_, _, split, blank, stop, ?_⟩
  generalize after : c.rest.dropWhile isBlank = u at split stop
  cases u with
  | nil =>
    rw [List.append_nil] at split
    exact .inl ⟨rfl, read_of_blanks split blank⟩
  | cons x u =>
    cases outcome : (scanToken (x :: u)).outcome with
    | ok t => exact .inr (.inl ⟨t, rfl, read_of_scan_ok split blank outcome⟩)
    | error k =>
      exact .inr (.inr ⟨k, List.cons_ne_nil x u, rfl,
        read_of_scan_error split blank stop (List.cons_ne_nil x u) outcome⟩)

theorem step_of_blanks {c : Cursor} {w u : List Char} {x : Char} (split : c.rest = w ++ x :: u)
    (blank : Blanks w) (stop : isBlank x = false) :
    c.step = (match (scanToken (x :: u)).outcome with
      | .ok t => .ok ⟨t, c.location.advanceAll w⟩
      | .error k => .error ⟨k, (c.skip (w.length + (scanToken (x :: u)).taken)).location⟩,
      c.skip (w.length + (scanToken (x :: u)).taken)) := by
  rw [step_eq_read]
  cases outcome : (scanToken (x :: u)).outcome with
  | ok t => rw [read_of_scan_ok split blank outcome]
  | error k =>
    have head : ∀ y ∈ (x :: u).head?, isBlank y = false := by
      intro y member
      cases member
      exact stop
    rw [read_of_scan_error split blank head (List.cons_ne_nil x u) outcome]

theorem read_skips (c : Cursor) : ∃ n ≤ c.rest.length, c.read.2 = c.skip n := by
  obtain ⟨w, u, split, -, -, done | ⟨t, -, read⟩ | ⟨k, -, -, read⟩⟩ := read_cases c
  · refine ⟨w.length, by simp [split, done.1], by rw [done.2]⟩
  · have bound := scanToken_taken_le u
    refine ⟨_, ?_, by rw [read]⟩
    simp only [split, List.length_append]
    omega
  · have bound := scanToken_taken_le u
    refine ⟨_, ?_, by rw [read]⟩
    simp only [split, List.length_append]
    omega

theorem readAll_of_rest_nil {c : Cursor} (done : c.rest = []) : c.readAll = ⟨[], none⟩ := by
  rw [readAll, if_pos done]

theorem readAll_of_step_ok {c c' : Cursor} {t : Located Token} (pending : c.rest ≠ [])
    (step : c.step = (.ok t, c')) : c.readAll = ⟨t :: c'.readAll.tokens, c'.readAll.error⟩ := by
  rw [readAll, if_neg pending]
  split
  · rename_i t' c'' step'
    rw [step] at step'
    simp only [Prod.mk.injEq, Except.ok.injEq] at step'
    obtain ⟨rfl, rfl⟩ := step'
    rfl
  · rename_i e c'' step'
    rw [step] at step'
    cases step'

theorem readAll_of_step_error {c c' : Cursor} {e : LexError} (pending : c.rest ≠ [])
    (step : c.step = (.error e, c')) : c.readAll = ⟨[], some e⟩ := by
  rw [readAll, if_neg pending]
  split
  · rename_i t' c'' step'
    rw [step] at step'
    cases step'
  · rename_i e' c'' step'
    rw [step] at step'
    simp only [Prod.mk.injEq, Except.error.injEq] at step'
    rw [step'.1]

theorem length_tokens_readAll_le (c : Cursor) : c.readAll.tokens.length ≤ c.rest.length := by
  fun_induction readAll c with
  | case1 c done => simp [done]
  | case2 c pending t c' step r ih =>
    subst r
    have shorter := length_rest_step_lt step
    simp only [List.length_cons]
    omega
  | case3 c pending e c' step => simp

end Cursor

end TemplateLex
