import TemplateLex.Proofs.ReadStep
import TemplateLex.Lexer.Session

/-! Two ways to read a whole text. Iterating a fresh lexer yields the tokens of the text, then at
most one error, then nothing on every later request; reading the text at once until it is used up
or a read fails reports the same tokens and the same error. Each token takes at least one
character, so a text has at most as many tokens as characters. -/
namespace TemplateLex

namespace Tokenized

/-- What a reading reports, in order: its tokens, then its error if there was one. -/
def outcomes (t : Tokenized) : List Outcome := t.tokens.map .ok ++ t.errors.map .error

theorem errorCount_le_one (t : Tokenized) : t.errorCount ≤ 1 := by
  cases h : t.error <;> simp [errorCount, errors, h]

end Tokenized

namespace Lexer

@[simp] theorem session_nil (l : Lexer) : l.session [] = [] := rfl

@[simp] theorem session_cons (l : Lexer) (q : Request) (qs : List Request) :
    l.session (q :: qs) = ((l.answer q).1, (l.answer q).2.cursor) :: (l.answer q).2.session qs :=
  rfl

theorem session_iterate_stuck {l : Lexer} (stuck : l.iterate = (none, l)) (n : Nat) :
    (l.session (List.replicate n .iterate)).map Prod.fst = List.replicate n (.item none) := by
  induction n with
  | zero => rfl
  | succ n ih =>
    have reply : l.answer .iterate = (.item none, l) := by simp [Lexer.answer, stuck]
    simp [List.replicate_succ, reply, ih]

theorem iterate_halted {l : Lexer} (halted : l.halted = true) : l.iterate = (none, l) := by
  simp [iterate, halted]

theorem iterate_fresh_of_rest_nil {c : Cursor} (done : c.rest = []) :
    ({ cursor := c } : Lexer).iterate = (none, { cursor := c }) := by
  simp [iterate, Cursor.atEnd, done]

theorem iterate_fresh_ok {c c' : Cursor} {t : Located Token} (pending : c.rest ≠ [])
    (stepped : c.step = (.ok t, c')) :
    ({ cursor := c } : Lexer).iterate = (some (.ok t), { cursor := c' }) := by
  have notEnd : c.atEnd = false := by simpa [Cursor.atEnd] using pending
  simp [iterate, notEnd, next, stepped]

theorem iterate_fresh_error {c c' : Cursor} {e : LexError} (pending : c.rest ≠ [])
    (stepped : c.step = (.error e, c')) :
    ({ cursor := c } : Lexer).iterate = (some (.error e), { cursor := c', halted := true }) := by
  have notEnd : c.atEnd = false := by simpa [Cursor.atEnd] using pending
  simp [iterate, notEnd, next, stepped]

/-- Iterating a fresh lexer yields, request by request, what reading the text at once reports,
and nothing once that is exhausted. -/
theorem session_iterate_fresh (c : Cursor) (n : Nat) :
    (({ cursor := c } : Lexer).session (List.replicate n .iterate)).map Prod.fst =
      (List.range n).map fun i => .item c.readAll.outcomes[i]? := by
  -- the induction follows the reading at once: a used-up text, a token and the rest, an error
  fun_induction Cursor.readAll c generalizing n with
  | case1 c done =>
    rw [session_iterate_stuck (iterate_fresh_of_rest_nil done)]
    simp [Tokenized.outcomes, Tokenized.errors, List.map_const']
  | case2 c pending t c' step r ih =>
    subst r
    cases n with
    | zero => rfl
    | succ n =>
      have reply : ({ cursor := c } : Lexer).answer .iterate =
          (.item (some (.ok t)), { cursor := c' }) := by
        simp [Lexer.answer, iterate_fresh_ok pending step]
      rw [List.replicate_succ, session_cons, reply, List.range_succ_eq_map]
      simp [ih, Tokenized.outcomes, Tokenized.errors]
  | case3 c pending e c' step =>
    cases n with
    | zero => rfl
    | succ n =>
      have reply : ({ cursor := c } : Lexer).answer .iterate =
          (.item (some (.error e)), { cursor := c', halted := true }) := by
        simp [Lexer.answer, iterate_fresh_error pending step]
      have halted : ({ cursor := c', halted := true } : Lexer).iterate =
          (none, { cursor := c', halted := true }) := iterate_halted rfl
      rw [List.replicate_succ, session_cons, reply, List.map_cons, session_iterate_stuck halted,
        List.range_succ_eq_map]
      simp [Tokenized.outcomes, Tokenized.errors, Function.comp_def, List.map_const']

/-- Iterating a lexer over `s` and tokenizing `s` agree: the `i`-th iterate request yields the
`i`-th outcome of the tokenization (its tokens, then its error if any) and nothing after the
last. The tokenization ends on every text, with at most as many tokens as characters, and with at
most one error reported. -/
theorem iterate_agrees_with_tokenize (s : String) :
    (∀ n, ((ofString s).session (List.replicate n .iterate)).map Prod.fst =
      (List.range n).map fun i => .item (tokenize s).outcomes[i]?) ∧
    (tokenize s).tokens.length ≤ s.length ∧ (tokenize s).errorCount ≤ 1 := by
  refine ⟨fun n => session_iterate_fresh _ n, ?_, Tokenized.errorCount_le_one _⟩
  have bound := Cursor.length_tokens_readAll_le (Cursor.ofString s)
  simpa [tokenize, Cursor.ofString, Cursor.ofList, String.length_toList] using bound

end Lexer

end TemplateLex
