import TemplateLex.Lexer.Scan
import TemplateLex.Text.Cursor

/-! One step of reading: the next token, or the error that stops it, and the cursor after it. A
brace under the cursor is read at once; otherwise blanks are skipped first, and running out of
input there is an error. A token is located at its first character, an error at the cursor after
the characters the failed scan read. -/
namespace TemplateLex

/-- What one step of reading yields: a located token or an error. -/
abbrev Outcome := Except LexError (Located Token)

namespace Cursor

/-- Skips blanks, then scans the token that follows them. -/
def read (c : Cursor) : Outcome × Cursor :=
  let c := c.skip (c.rest.takeWhile isBlank).length
  if c.rest.isEmpty then (.error ⟨.unexpectedEnd, c.location⟩, c)
  else
    let s := scanToken c.rest
    let after := c.skip s.taken
    match s.outcome with
    | .ok t => (.ok ⟨t, c.location⟩, after)
    | .error k => (.error ⟨k, after.location⟩, after)

def step (c : Cursor) : Outcome × Cursor :=
  match c.rest with
  | '\x7b' :: _ => (.ok ⟨.openTemplate, c.location⟩, c.skip 1)
  | '\x7d' :: _ => (.ok ⟨.closeTemplate, c.location⟩, c.skip 1)
  | _ => c.read

theorem length_rest_read_lt {c c' : Cursor} {t : Located Token}
    (h : c.read = (.ok t, c')) : c'.rest.length < c.rest.length := by
  unfold read at h
  dsimp only at h
  split at h
  · simp at h
  · rename_i hne
    generalize hs : scanToken (c.skip (c.rest.takeWhile isBlank).length).rest = s at h
    rcases s with ⟨n, outcome⟩
    cases outcome with
    | error k => simp at h
    | ok tok =>
      simp only [Prod.mk.injEq] at h
      have hpos : 0 < n := by
        have h' := taken_pos_of_outcome_ok (t := tok) (by rw [hs])
        rwa [hs] at h'
      rw [← h.2]
      simp only [rest_skip, List.length_drop] at hne ⊢
      simp only [List.isEmpty_iff, List.drop_eq_nil_iff] at hne
      omega

theorem length_rest_step_lt {c c' : Cursor} {t : Located Token}
    (h : c.step = (.ok t, c')) : c'.rest.length < c.rest.length := by
  unfold step at h
  split at h
  · rename_i x tl hx
    simp only [Prod.mk.injEq] at h
    rw [← h.2, rest_skip, hx]
    simp
  · rename_i x tl hx
    simp only [Prod.mk.injEq] at h
    rw [← h.2, rest_skip, hx]
    simp
  · exact length_rest_read_lt h

end Cursor

end TemplateLex
