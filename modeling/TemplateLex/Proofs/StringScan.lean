import TemplateLex.Proofs.ReadStep

/-! Reading a quoted string at the cursor: the string of its units' text at the closing quote, and
an error with the letter at a bad escape, or with the end of the input. -/
namespace TemplateLex

open Quoted

section Scan

variable {d : Char} {z v : List Char}

theorem scanToken_quote (quoted : d = '"' ∨ d = '\'') (y : List Char) :
    scanToken (d :: y) = scanString d y := by
  rcases quoted with rfl | rfl <;> rfl

theorem scanString_close (quoted : d = '"' ∨ d = '\'') (units : Units d z v) (r : List Char) :
    scanString d (z ++ d :: r) = ⟨z.length + 2, .ok (.string (String.ofList v))⟩ := by
  have notBackslash : d ≠ '\\' := by rcases quoted with rfl | rfl <;> decide
  have closing : decodeBody d (d :: r) = (1, .ok []) := by
    rw [decodeBody_cons notBackslash, if_pos rfl]
  simp [scanString, decodeBody_units units, closing, Except.map]
  omega

theorem scanString_badEscape (units : Units d z v) {e : Char} (unknown : ∀ x, (e, x) ∉ escapes)
    (r : List Char) :
    scanString d (z ++ '\\' :: e :: r) = ⟨z.length + 3, .error (.invalidEscape e)⟩ := by
  have none : unescape? e = none := by
    cases known : unescape? e with
    | none => rfl
    | some x => exact absurd (mem_of_unescape known) (unknown x)
  have stops : decodeBody d ('\\' :: e :: r) = (2, .error (.badEscape e)) := by
    simp [decodeBody, none]
  simp [scanString, decodeBody_units units, stops, Except.map]
  omega

theorem scanString_end (units : Units d z v) {y : List Char} (ends : y = z ∨ y = z ++ ['\\']) :
    scanString d y = ⟨y.length + 1, .error .unexpectedEnd⟩ := by
  rcases ends with rfl | rfl
  · have stops : decodeBody d [] = (0, .error .unterminated) := rfl
    have read := decodeBody_units units []
    rw [List.append_nil, stops] at read
    simp [scanString, read, Except.map]
  · have stops : decodeBody d ['\\'] = (1, .error .unterminated) := rfl
    simp [scanString, decodeBody_units units, stops, Except.map]
    omega

end Scan

section Step

variable {c : Cursor} {w y : List Char} {d : Char}

theorem isBlank_quote (quoted : d = '"' ∨ d = '\'') : isBlank d = false := by
  rcases quoted with rfl | rfl <;> rfl

theorem step_string_close (quoted : d = '"' ∨ d = '\'') (split : c.rest = w ++ d :: y)
    (blank : Blanks w) {z v r : List Char} (units : Units d z v) (shape : y = z ++ d :: r) :
    c.step = (.ok ⟨.string (String.ofList v), c.location.advanceAll w⟩,
      c.skip (w.length + z.length + 2)) := by
  rw [Cursor.step_of_blanks split blank (isBlank_quote quoted), scanToken_quote quoted, shape,
    scanString_close quoted units r, Nat.add_assoc]

theorem step_string_badEscape (quoted : d = '"' ∨ d = '\'') (split : c.rest = w ++ d :: y)
    (blank : Blanks w) {z v r : List Char} {e : Char} (units : Units d z v)
    (unknown : ∀ x, (e, x) ∉ escapes) (shape : y = z ++ '\\' :: e :: r) :
    c.step = (.error ⟨.invalidEscape e, (c.skip (w.length + z.length + 3)).location⟩,
      c.skip (w.length + z.length + 3)) := by
  rw [Cursor.step_of_blanks split blank (isBlank_quote quoted), scanToken_quote quoted, shape,
    scanString_badEscape units unknown r, Nat.add_assoc]

theorem step_string_end (quoted : d = '"' ∨ d = '\'') (split : c.rest = w ++ d :: y)
    (blank : Blanks w) {z v : List Char} (units : Units d z v) (shape : y = z ∨ y = z ++ ['\\']) :
    c.step = (.error ⟨.unexpectedEnd, (c.skip (w.length + y.length + 1)).location⟩,
      c.skip (w.length + y.length + 1)) := by
  rw [Cursor.step_of_blanks split blank (isBlank_quote quoted), scanToken_quote quoted,
    scanString_end units shape, Nat.add_assoc]

theorem step_string_ok_iff (quoted : d = '"' ∨ d = '\'') (split : c.rest = w ++ d :: y)
    (blank : Blanks w) : (∃ t, c.step.1 = .ok t) ↔ ∃ z v r, Units d z v ∧ y = z ++ d :: r := by
  constructor
  · rintro ⟨t, ok⟩
    obtain ⟨z, v, units, shape | shape | ⟨r, shape⟩ | ⟨e, r, unknown, shape⟩⟩ := units_decompose d y
    · rw [step_string_end quoted split blank units (.inl shape)] at ok
      cases ok
    · rw [step_string_end quoted split blank units (.inr shape)] at ok
      cases ok
    · exact ⟨z, v, r, units, shape⟩
    · rw [step_string_badEscape quoted split blank units unknown shape] at ok
      cases ok
  · rintro ⟨z, v, r, units, shape⟩
    exact ⟨_, by rw [step_string_close quoted split blank units shape]⟩

end Step

/-- Reading a string literal. At blanks and then a quote `d` followed by `y`: a written text
followed by `d` reads as that text; a run of units `z` followed by `d` reads as the units' text,
and these are the only reads that make a token; after `z`, a backslash and a letter that is no
escape fail just after the letter, and the end of the input, right after `z` or after a backslash
at the end, fails there. Every `y` is a run of units followed by one of these. -/
theorem step_string_literal {c : Cursor} {w y : List Char} {d : Char}
    (quoted : d = '"' ∨ d = '\'') (split : c.rest = w ++ d :: y) (blank : Blanks w) :
    let here := c.location.advanceAll w
    (∀ (text : String) r, y = encodeBody text.toList ++ d :: r →
      c.step = (.ok ⟨.string text, here⟩,
        c.skip (w.length + (encodeBody text.toList).length + 2))) ∧
    (∀ z v r, Units d z v → y = z ++ d :: r →
      c.step = (.ok ⟨.string (String.ofList v), here⟩, c.skip (w.length + z.length + 2))) ∧
    (∀ z v e r, Units d z v → (∀ x, (e, x) ∉ escapes) → y = z ++ '\\' :: e :: r →
      c.step = (.error ⟨.invalidEscape e, (c.skip (w.length + z.length + 3)).location⟩,
        c.skip (w.length + z.length + 3))) ∧
    (∀ z v, Units d z v → (y = z ∨ y = z ++ ['\\']) →
      c.step = (.error ⟨.unexpectedEnd, (c.skip (w.length + y.length + 1)).location⟩,
        c.skip (w.length + y.length + 1))) ∧
    (∃ z v, Units d z v ∧ (y = z ∨ y = z ++ ['\\'] ∨ (∃ r, y = z ++ d :: r) ∨
      ∃ e r, (∀ x, (e, x) ∉ escapes) ∧ y = z ++ '\\' :: e :: r)) ∧
    ((∃ t, c.step.1 = .ok t) ↔ ∃ z v r, Units d z v ∧ y = z ++ d :: r) := by
  intro here
  refine ⟨fun text r shape => ?_, fun _ _ _ units => step_string_close quoted split blank units,
    fun _ _ _ _ units => step_string_badEscape quoted split blank units,
    fun _ _ units => step_string_end quoted split blank units, units_decompose d y,
    step_string_ok_iff quoted split blank⟩
  have written := step_string_close quoted split blank (units_encodeBody quoted text.toList) shape
  rwa [String.ofList_toList] at written

theorem invalid_escape_after_letter :
    ('"' = '"' ∨ '"' = '\'') ∧
      (Cursor.ofList ['"', 'a', '\\', 'q', 'b', '"']).rest =
        [] ++ '"' :: ['a', '\\', 'q', 'b', '"'] ∧
      Blanks [] ∧
      (Cursor.ofList ['"', 'a', '\\', 'q', 'b', '"']).step.1 = .error ⟨.invalidEscape 'q', ⟨1, 5⟩⟩ := by
  have quoted : '"' = '"' ∨ '"' = '\'' := .inl rfl
  have split : (Cursor.ofList ['"', 'a', '\\', 'q', 'b', '"']).rest =
      [] ++ '"' :: ['a', '\\', 'q', 'b', '"'] := rfl
  have blank : Blanks [] := by decide
  obtain ⟨-, -, fails, -⟩ := step_string_literal quoted split blank
  have units : Units '"' ['a'] ['a'] := .plain (by decide) (by decide) .nil
  have unknown : ∀ x, ('q', x) ∉ escapes := by
    intro x entry
    simp [escapes] at entry
  refine ⟨quoted, split, blank, ?_⟩
  rw [fails ['a'] ['a'] 'q' ['b', '"'] units unknown rfl]
  rfl

end TemplateLex
