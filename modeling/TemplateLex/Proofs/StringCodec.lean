import TemplateLex.Token.Quoted

/-! Reading and writing quoted strings. A written body reads back to its text, and every body is a
run of units, each a plain character or an escape, up to its closing quote or its first defect. -/
namespace TemplateLex

namespace Quoted

theorem unescape_of_escapeLetter {c e : Char} (escaped : escapeLetter? c = some e) :
    unescape? e = some c := by
  obtain ⟨entry, found, rfl⟩ := Option.map_eq_some_iff.mp escaped
  have member := List.mem_of_find?_eq_some found
  have letter : entry.2 = c := by simpa using List.find?_some found
  subst letter
  simp only [escapes, List.mem_cons, List.not_mem_nil, or_false] at member
  rcases member with rfl | rfl | rfl | rfl | rfl | rfl | rfl <;> rfl

theorem ne_of_escapeLetter_none {c : Char} (plain : escapeLetter? c = none) :
    c ≠ '\\' ∧ c ≠ '"' := by
  constructor <;> (rintro rfl; simp [escapeLetter?, escapes] at plain)

theorem decodeBody_cons {close c : Char} (plain : c ≠ '\\') (rest : List Char) :
    decodeBody close (c :: rest) =
      if c = close then (1, .ok []) else
        ((decodeBody close rest).1 + 1, (decodeBody close rest).2.map (c :: ·)) := by
  cases rest with
  | nil => simp [decodeBody, plain]
  | cons x rest => simp [decodeBody, plain]

theorem decodeBody_escape {close e c : Char} (known : unescape? e = some c) (rest : List Char) :
    decodeBody close ('\\' :: e :: rest) =
      ((decodeBody close rest).1 + 2, (decodeBody close rest).2.map (c :: ·)) := by
  simp [decodeBody, known]

/-- A written body reads back to its text, up to and including the closing double quote. -/
theorem decodeBody_encodeBody (v rest : List Char) :
    decodeBody '"' (encodeBody v ++ '"' :: rest) = ((encodeBody v).length + 1, .ok v) := by
  induction v with
  | nil => simp [encodeBody, decodeBody]
  | cons c v ih =>
    cases letter : escapeLetter? c with
    | none =>
      obtain ⟨notBackslash, notQuote⟩ := ne_of_escapeLetter_none letter
      simp [encodeBody, letter, decodeBody_cons notBackslash, notQuote, ih, Except.map]
    | some e =>
      simp [encodeBody, letter, decodeBody_escape (unescape_of_escapeLetter letter), ih,
        Except.map]

theorem decodeBody_taken_le (close : Char) (cs : List Char) :
    (decodeBody close cs).1 ≤ cs.length := by
  fun_induction decodeBody close cs with
  | case1 => simp
  | case2 => simp
  | case3 e rest c known n r split ih =>
    rw [split] at ih
    simp only [List.length_cons]
    omega
  | case4 => simp
  | case5 => simp
  | case6 c rest single pair differs n r split ih =>
    rw [split] at ih
    simp only [List.length_cons]
    omega

theorem ne_backslash_of_patterns {c : Char} {rest : List Char}
    (single : c = '\\' → rest = [] → False)
    (pair : ∀ e tail, c = '\\' → rest = e :: tail → False) : c ≠ '\\' := by
  intro backslash
  cases rest with
  | nil => exact single backslash rfl
  | cons e tail => exact pair e tail backslash rfl

theorem decodeBody_append {close : Char} {cs : List Char} {v : List Char}
    (closed : (decodeBody close cs).2 = .ok v) (more : List Char) :
    decodeBody close (cs ++ more) = decodeBody close cs := by
  -- the induction follows the reader: the two failures at the end, an escape, the closing quote,
  -- a plain character; only an escape and a plain character read on
  fun_induction decodeBody close cs generalizing v with
  | case1 => cases closed
  | case2 => cases closed
  | case3 e rest c known n r split ih =>
    cases r with
    | error failure => cases closed
    | ok body =>
      have same := ih (v := body) (by rw [split])
      rw [List.cons_append, List.cons_append, decodeBody_escape known, same, split]
  | case4 e rest unknown => cases closed
  | case5 rest single pair =>
    have plain := ne_backslash_of_patterns single pair
    rw [List.cons_append, decodeBody_cons plain, if_pos rfl]
  | case6 c rest single pair differs n r split ih =>
    have plain := ne_backslash_of_patterns single pair
    cases r with
    | error failure => cases closed
    | ok body =>
      have same := ih (v := body) (by rw [split])
      rw [List.cons_append, decodeBody_cons plain, if_neg differs, same, split]

section Grammar

/-- `z` is a run of units of a body that `quote` closes, and `v` the text it stands for: a character
other than a backslash and the quote stands for itself, a backslash and an escape letter for the
character of the table. -/
inductive Units (quote : Char) : List Char → List Char → Prop
  | nil : Units quote [] []
  | plain {c : Char} {z v : List Char} (notBackslash : c ≠ '\\') (notQuote : c ≠ quote)
      (rest : Units quote z v) : Units quote (c :: z) (c :: v)
  | escape {e x : Char} {z v : List Char} (entry : (e, x) ∈ escapes) (rest : Units quote z v) :
      Units quote ('\\' :: e :: z) (x :: v)

theorem unescape_of_mem {e x : Char} (entry : (e, x) ∈ escapes) : unescape? e = some x := by
  simp only [escapes, List.mem_cons, Prod.mk.injEq, List.not_mem_nil, or_false] at entry
  rcases entry with ⟨rfl, rfl⟩ | ⟨rfl, rfl⟩ | ⟨rfl, rfl⟩ | ⟨rfl, rfl⟩ | ⟨rfl, rfl⟩ | ⟨rfl, rfl⟩ |
    ⟨rfl, rfl⟩ <;> rfl

theorem mem_of_unescape {e x : Char} (known : unescape? e = some x) : (e, x) ∈ escapes := by
  obtain ⟨entry, found, rfl⟩ := Option.map_eq_some_iff.mp known
  have letter : entry.1 = e := by simpa using List.find?_some found
  subst letter
  exact List.mem_of_find?_eq_some found

theorem mem_of_escapeLetter {c e : Char} (escaped : escapeLetter? c = some e) : (e, c) ∈ escapes := by
  obtain ⟨entry, found, rfl⟩ := Option.map_eq_some_iff.mp escaped
  have written : entry.2 = c := by simpa using List.find?_some found
  subst written
  exact List.mem_of_find?_eq_some found

theorem not_mem_of_escapeLetter_none {c e : Char} (plain : escapeLetter? c = none) :
    (e, c) ∉ escapes := by
  intro entry
  have found := List.find?_eq_none.mp (Option.map_eq_none_iff.mp plain) (e, c) entry
  simp at found

/-- A run of units reads as its text and hands the rest of the input on. -/
theorem decodeBody_units {quote : Char} {z v : List Char} (units : Units quote z v)
    (tail : List Char) :
    decodeBody quote (z ++ tail) =
      ((decodeBody quote tail).1 + z.length, (decodeBody quote tail).2.map (v ++ ·)) := by
  induction units with
  | nil =>
    rw [List.nil_append]
    obtain ⟨n, r⟩ := decodeBody quote tail
    cases r <;> simp [Except.map]
  | plain notBackslash notQuote rest ih =>
    rw [List.cons_append, decodeBody_cons notBackslash, if_neg notQuote, ih]
    obtain ⟨n, r⟩ := decodeBody quote tail
    cases r <;> simp [Except.map] <;> omega
  | escape entry rest ih =>
    rw [List.cons_append, List.cons_append, decodeBody_escape (unescape_of_mem entry), ih]
    obtain ⟨n, r⟩ := decodeBody quote tail
    cases r <;> simp [Except.map] <;> omega

/-- Every body is a run of units up to its first defect or its closing quote: the end of the
input, a backslash at the end, the quote, or a backslash and a letter that is no escape. -/
theorem units_decompose (quote : Char) (y : List Char) :
    ∃ z v, Units quote z v ∧ (y = z ∨ y = z ++ ['\\'] ∨ (∃ r, y = z ++ quote :: r) ∨
      ∃ e r, (∀ x, (e, x) ∉ escapes) ∧ y = z ++ '\\' :: e :: r) := by
  fun_induction decodeBody quote y with
  | case1 => exact ⟨[], [], .nil, .inl rfl⟩
  | case2 => exact ⟨[], [], .nil, .inr (.inl rfl)⟩
  | case3 e rest c known n r split ih =>
    obtain ⟨z, v, units, stops⟩ := ih
    refine ⟨'\\' :: e :: z, c :: v, .escape (mem_of_unescape known) units, ?_⟩
    rcases stops with rfl | rfl | ⟨r, rfl⟩ | ⟨e', r, unknown, rfl⟩
    · exact .inl rfl
    · exact .inr (.inl rfl)
    · exact .inr (.inr (.inl ⟨r, rfl⟩))
    · exact .inr (.inr (.inr ⟨e', r, unknown, rfl⟩))
  | case4 e rest unknown =>
    have noEntry : ∀ x, (e, x) ∉ escapes := by
      intro x entry
      rw [unescape_of_mem entry] at unknown
      cases unknown
    exact ⟨[], [], .nil, .inr (.inr (.inr ⟨e, rest, noEntry, rfl⟩))⟩
  | case5 rest single pair => exact ⟨[], [], .nil, .inr (.inr (.inl ⟨rest, rfl⟩))⟩
  | case6 c rest single pair differs n r split ih =>
    obtain ⟨z, v, units, stops⟩ := ih
    have plain := ne_backslash_of_patterns single pair
    refine ⟨c :: z, c :: v, .plain plain differs units, ?_⟩
    rcases stops with rfl | rfl | ⟨r, rfl⟩ | ⟨e', r, unknown, rfl⟩
    · exact .inl rfl
    · exact .inr (.inl rfl)
    · exact .inr (.inr (.inl ⟨r, rfl⟩))
    · exact .inr (.inr (.inr ⟨e', r, unknown, rfl⟩))

theorem units_encodeBody {quote : Char} (quoted : quote = '"' ∨ quote = '\'') (v : List Char) :
    Units quote (encodeBody v) v := by
  induction v with
  | nil => exact .nil
  | cons c v ih =>
    cases letter : escapeLetter? c with
    | none =>
      have notBackslash : c ≠ '\\' := by
        rintro rfl
        exact not_mem_of_escapeLetter_none letter (e := '\\') (by decide)
      have notQuote : c ≠ quote := by
        rintro rfl
        rcases quoted with rfl | rfl
        · exact not_mem_of_escapeLetter_none letter (e := '"') (by decide)
        · exact not_mem_of_escapeLetter_none letter (e := '\'') (by decide)
      simpa [encodeBody, letter] using Units.plain notBackslash notQuote ih
    | some e =>
      simpa [encodeBody, letter] using Units.escape (mem_of_escapeLetter letter) ih

end Grammar

end Quoted

end TemplateLex
