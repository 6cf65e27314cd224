import TemplateLex.Proofs.Lookahead
import TemplateLex.Proofs.Drivers
import Mathlib.Data.Prod.Lex

/-! Every read moves forward. Locations are ordered by line and then column, a read that makes a token
takes the blanks and at least one more character, and a failed read reports the cursor it leaves; so
the tokens handed out stand at strictly later locations. -/
namespace TemplateLex

namespace Location

/-- Locations in reading order: an earlier line first, and on one line the smaller column first. -/
instance : LinearOrder Location :=
  LinearOrder.lift' (fun l => toLex (l.line, l.column)) fun a b same => by
    cases a
    cases b
    simp_all

theorem lt_iff {a b : Location} : a < b ↔ a.line < b.line ∨ a.line = b.line ∧ a.column < b.column :=
  Prod.Lex.toLex_lt_toLex

theorem lt_advance (l : Location) (c : Char) : l < l.advance c := by
  rw [lt_iff]
  unfold advance
  split <;> simp

theorem le_advanceAll (l : Location) (cs : List Char) : l ≤ l.advanceAll cs := by
  induction cs generalizing l with
  | nil => exact le_rfl
  | cons c cs ih => exact (lt_advance l c).le.trans (ih _)

theorem lt_advanceAll (l : Location) {cs : List Char} (nonempty : cs ≠ []) :
    l < l.advanceAll cs := by
  obtain ⟨c, cs, rfl⟩ := List.exists_cons_of_ne_nil nonempty
  exact (lt_advance l c).trans_le (le_advanceAll _ cs)

end Location

namespace Cursor

theorem location_le_skip (c : Cursor) (n : Nat) : c.location ≤ (c.skip n).location :=
  Location.le_advanceAll _ _

theorem location_le_step (c : Cursor) : c.location ≤ c.step.2.location := by
  obtain ⟨n, -, read⟩ := c.read_skips
  rw [step_eq_read, read]
  exact location_le_skip c n

theorem step_ok_reads {c c' : Cursor} {t : Located Token} (stepped : c.step = (.ok t, c')) :
    ∃ w u, c.rest = w ++ u ++ c'.rest ∧ Blanks w ∧ (∃ x u', u = x :: u' ∧ isBlank x = false) ∧
      c' = c.skip (w.length + u.length) ∧ t.location = (c.skip w.length).location := by
  rw [step_eq_read] at stepped
  obtain ⟨w, u, split, blank, stop, ⟨-, read⟩ | ⟨tok, ok, read⟩ | ⟨k, -, -, read⟩⟩ := c.read_cases
  · rw [read] at stepped
    cases stepped
  · rw [read] at stepped
    simp only [Prod.mk.injEq, Except.ok.injEq] at stepped
    obtain ⟨rfl, rfl⟩ := stepped
    have positive := taken_pos_of_outcome_ok ok
    have bound := scanToken_taken_le u
    obtain ⟨x, u', rfl⟩ : ∃ x u', u = x :: u' :=
      List.exists_cons_of_ne_nil (by rintro rfl; simp at bound; omega)
    have taken : ((x :: u').take (scanToken (x :: u')).taken).length = (scanToken (x :: u')).taken :=
      List.length_take_of_le bound
    have first : (x :: u').take (scanToken (x :: u')).taken =
        x :: u'.take ((scanToken (x :: u')).taken - 1) := by
      rw [← Nat.sub_add_cancel positive, List.take_succ_cons, Nat.add_sub_cancel]
    refine ⟨w, (x :: u').take (scanToken (x :: u')).taken, ?_, blank,
      ⟨x, _, first, stop x rfl⟩, by rw [taken], ?_⟩
    · rw [rest_skip, split, List.drop_length_add_append, List.append_assoc,
        List.take_append_drop]
    · simp [split]
  · rw [read] at stepped
    cases stepped

theorem step_error_location {c c' : Cursor} {e : LexError} (stepped : c.step = (.error e, c')) :
    e.location = c'.location := by
  rw [step_eq_read] at stepped
  obtain ⟨w, u, split, -, -, ⟨-, read⟩ | ⟨tok, -, read⟩ | ⟨k, -, -, read⟩⟩ := c.read_cases
  · rw [read] at stepped
    simp only [Prod.mk.injEq, Except.error.injEq] at stepped
    obtain ⟨rfl, rfl⟩ := stepped
    simp [split]
  · rw [read] at stepped
    cases stepped
  · rw [read] at stepped
    simp only [Prod.mk.injEq, Except.error.injEq] at stepped
    obtain ⟨rfl, rfl⟩ := stepped
    rfl

theorem step_ok_location {c c' : Cursor} {t : Located Token} (stepped : c.step = (.ok t, c')) :
    c.location ≤ t.location ∧ t.location < c'.location := by
  obtain ⟨w, u, split, -, ⟨x, u', rfl, -⟩, rfl, placed⟩ := step_ok_reads stepped
  rw [placed]
  refine ⟨location_le_skip c _, ?_⟩
  have after : (c.skip w.length).rest.take (x :: u').length = x :: u' := by
    rw [rest_skip, split, List.append_assoc, List.drop_left, List.take_left]
  rw [← skip_skip, location_skip (c.skip w.length), after]
  exact Location.lt_advanceAll _ (List.cons_ne_nil x u')

end Cursor

namespace Lexer

def Reply.token? (r : Reply) : Option (Located Token) := r.outcome?.bind Except.toOption

theorem lookahead_next (l : Lexer) : l.next.2.lookahead = none := by
  cases ahead : l.lookahead <;> simp [next, ahead]

theorem next_fresh {l : Lexer} (fresh : l.lookahead = none) :
    l.next = (l.cursor.step.1, { l with cursor := l.cursor.step.2 }) := by
  simp [next, fresh]

/-- Along reads from a lexer with nothing read ahead, each token stands at or after the first
cursor and strictly after every token handed out before it. -/
theorem session_next_ordered {l : Lexer} (fresh : l.lookahead = none) (n : Nat) :
    (∀ t ∈ (l.session (List.replicate n .next)).filterMap (·.1.token?),
      l.cursor.location ≤ t.location) ∧
    ((l.session (List.replicate n .next)).filterMap (·.1.token?)).Pairwise
      fun a b => a.location < b.location := by
  induction n generalizing l with
  | zero => simp
  | succ n ih =>
    rcases stepped : l.cursor.step with ⟨r, c'⟩
    have reply : l.answer .next = (.outcome r, { l with cursor := c' }) := by
      simp [answer, next_fresh fresh, stepped]
    obtain ⟨later, ordered⟩ := ih (l := { l with cursor := c' }) fresh
    have moved : l.cursor.location ≤ c'.location := by
      simpa [stepped] using l.cursor.location_le_step
    rw [List.replicate_succ, session_cons, reply]
    cases r with
    | ok t =>
      obtain ⟨before, after⟩ := Cursor.step_ok_location stepped
      simp only [List.filterMap_cons, Reply.token?, Reply.outcome?, Option.bind_some,
        Except.toOption, List.mem_cons, List.pairwise_cons]
      refine ⟨?_, fun t' member => after.trans_le (later t' member), ordered⟩
      rintro t' (rfl | member)
      · exact before
      · exact moved.trans (later t' member)
    | error e =>
      simp only [List.filterMap_cons, Reply.token?, Reply.outcome?, Option.bind_some,
        Except.toOption]
      exact ⟨fun t' member => moved.trans (later t' member), ordered⟩

/-- A read from `l` moves forward as reading must: a token takes the longest run of blanks under
the cursor and at least one more character, and stands where the blanks end; an error is reported
where the read leaves the cursor, so nothing is read after it is described. -/
structure ReadsForward (l : Lexer) : Prop where
  token : ∀ t, l.next.1 = .ok t → ∃ w u, l.cursor.rest = w ++ u ++ l.next.2.cursor.rest ∧
    Blanks w ∧ (∃ x u', u = x :: u' ∧ isBlank x = false) ∧
    l.next.2.cursor = l.cursor.skip (w.length + u.length) ∧
    t.location = (l.cursor.skip w.length).location
  error : ∀ e, l.next.1 = .error e → e.location = l.next.2.cursor.location

theorem readsForward_of_fresh {l : Lexer} (fresh : l.lookahead = none) : l.ReadsForward := by
  have read := next_fresh fresh
  constructor
  · intro t ok
    rw [read] at ok ⊢
    exact Cursor.step_ok_reads (by rw [← ok])
  · intro e error
    rw [read] at error ⊢
    exact Cursor.step_error_location (by rw [← error])

theorem lookahead_run_next {l : Lexer} (fresh : l.lookahead = none) (n : Nat) :
    (l.run (List.replicate n .next)).lookahead = none := by
  induction n generalizing l with
  | zero => exact fresh
  | succ n ih =>
    rw [List.replicate_succ, run_cons]
    exact ih (by simpa [answer] using lookahead_next l)

/-- Every read moves forward, from every state that reads reach on every source, errors
included, and the tokens handed out one after another stand at strictly later locations. -/
theorem next_token_progress (s : String) (n : Nat) :
    ((ofString s).run (List.replicate n .next)).ReadsForward ∧
      (((ofString s).session (List.replicate n .next)).filterMap (·.1.token?)).Pairwise
        fun a b => a.location < b.location :=
  ⟨readsForward_of_fresh (lookahead_run_next rfl n), (session_next_ordered rfl n).2⟩

end Lexer

end TemplateLex
