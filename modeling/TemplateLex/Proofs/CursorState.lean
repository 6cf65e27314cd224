import TemplateLex.Lexer.Session

/-! What a cursor knows about its text: every cursor a session reaches from the start of a text has
read a prefix of it, and its location is the one after that prefix. -/
namespace TemplateLex

namespace Cursor

/-- A cursor that has read a prefix of `cs`: the characters left are the rest of `cs`, and its
location is the one after that prefix. -/
structure Reads (cs : List Char) (c : Cursor) : Prop where
  consumed_le : c.consumed ≤ cs.length
  rest_eq : c.rest = cs.drop c.consumed
  location_eq : c.location = Location.ofRead (cs.take c.consumed)

theorem reads_ofList (cs : List Char) : (ofList cs).Reads cs :=
  ⟨Nat.zero_le _, rfl, rfl⟩

theorem Reads.remaining_eq {cs : List Char} {c : Cursor} (h : c.Reads cs) :
    c.remaining = cs.length - c.consumed := by
  simp [remaining, h.rest_eq]

theorem Reads.next? {cs : List Char} {c c' : Cursor} {ch : Char} (h : c.Reads cs)
    (hn : c.next? = some (ch, c')) : c'.Reads cs := by
  unfold Cursor.next? at hn
  cases hr : c.rest with
  | nil => rw [hr] at hn; simp at hn
  | cons x rest =>
    rw [hr] at hn
    simp only [Option.some.injEq, Prod.mk.injEq] at hn
    obtain ⟨rfl, rfl⟩ := hn
    have hdrop := h.rest_eq
    rw [hr] at hdrop
    have hlt : c.consumed < cs.length := by
      have hlen := congrArg List.length hdrop
      simp only [List.length_cons, List.length_drop] at hlen
      omega
    have hget : cs[c.consumed]? = some x := by
      rw [← List.head?_drop, ← hdrop]
      rfl
    refine ⟨hlt, ?_, ?_⟩
    · have hstep : cs.drop (c.consumed + 1) = (cs.drop c.consumed).drop 1 := by
        rw [List.drop_drop, Nat.add_comm]
      rw [hstep, ← hdrop]
      rfl
    · show c.location.advance x = Location.ofRead (cs.take (c.consumed + 1))
      rw [List.take_add_one, hget, h.location_eq]
      simp [Location.ofRead_append_singleton]

theorem Reads.answer {cs : List Char} {c : Cursor} (h : c.Reads cs) (q : Request) :
    (c.answer q).2.Reads cs := by
  cases q with
  | next =>
    simp only [Cursor.answer]
    split
    · rename_i ch c' hn
      exact h.next? hn
    · exact h
  | peek => exact h
  | atEnd => exact h
  | remaining => exact h
  | describe _ => exact h

theorem consumed_le_answer (c : Cursor) (q : Request) : c.consumed ≤ (c.answer q).2.consumed := by
  cases q with
  | next =>
    simp only [answer]
    split
    · rename_i ch c' hn
      unfold Cursor.next? at hn
      split at hn
      · simp at hn
      · simp only [Option.some.injEq, Prod.mk.injEq] at hn
        rw [← hn.2]
        exact Nat.le_succ _
    · exact Nat.le_refl _
  | peek => exact Nat.le_refl _
  | atEnd => exact Nat.le_refl _
  | remaining => exact Nat.le_refl _
  | describe _ => exact Nat.le_refl _

@[simp] theorem session_nil (c : Cursor) : c.session [] = [] := rfl

@[simp] theorem session_cons (c : Cursor) (q : Request) (qs : List Request) :
    c.session (q :: qs) = ((c.answer q).1, (c.answer q).2) :: (c.answer q).2.session qs := rfl

theorem Reads.session {cs : List Char} {c : Cursor} (h : c.Reads cs) (qs : List Request) :
    ∀ p ∈ c.session qs, p.2.Reads cs := by
  induction qs generalizing c with
  | nil => simp
  | cons q qs ih =>
    intro p hp
    rw [session_cons, List.mem_cons] at hp
    rcases hp with rfl | hp
    · exact h.answer q
    · exact ih (h.answer q) p hp

theorem Reads.session_remaining {cs : List Char} {c : Cursor} (h : c.Reads cs)
    (qs : List Request) :
    ∀ p ∈ qs.zip (c.session qs), p.1 = .remaining →
      p.2.1 = .count (cs.length - p.2.2.consumed) := by
  induction qs generalizing c with
  | nil => simp
  | cons q qs ih =>
    intro p hp hq
    rw [session_cons, List.zip_cons_cons, List.mem_cons] at hp
    rcases hp with rfl | hp
    · simp only at hq
      subst hq
      have ha : c.answer .remaining = (.count c.remaining, c) := rfl
      rw [ha, h.remaining_eq]
    · exact ih (h.answer q) p hp hq

theorem session_consumed_mono (c : Cursor) (qs : List Request) :
    (∀ p ∈ c.session qs, c.consumed ≤ p.2.consumed) ∧
      (c.session qs).Pairwise (fun p q => p.2.consumed ≤ q.2.consumed) := by
  induction qs generalizing c with
  | nil => simp
  | cons q qs ih =>
    obtain ⟨ih1, ih2⟩ := ih (c.answer q).2
    have hq := consumed_le_answer c q
    rw [session_cons]
    refine ⟨?_, List.pairwise_cons.mpr ⟨ih1, ih2⟩⟩
    intro p hp
    rcases List.mem_cons.mp hp with rfl | hp
    · exact hq
    · exact Nat.le_trans hq (ih1 p hp)

theorem session_next_all (c : Cursor) :
    (c.session (List.replicate (c.rest.length + 1) .next)).map Prod.fst =
      c.rest.map (fun ch => Reply.char (some ch)) ++ [Reply.char none] := by
  generalize hr : c.rest = l
  induction l generalizing c with
  | nil => simp [answer, next?, hr]
  | cons x l ih =>
    have hn : c.next? = some (x, ⟨l, c.consumed + 1, c.location.advance x⟩) := by
      simp [next?, hr]
    rw [List.length_cons, List.replicate_succ, session_cons]
    simp only [answer, hn, List.map_cons, List.cons_append]
    rw [ih _ rfl]

/-- A session of requests from the start of a text never loses its place: every cursor it
reaches has read at most the whole text and has the rest of the text still to read; its line is
one more than the line feeds read and its column one more than the characters read since the last
of them; the count left is the length less the count read, and so is every answer to a request
for it. The counts read never go down, and asking for the next character one time more than the
text is long hands out the text, then nothing. -/
theorem session_reads_source (s : String) (qs : List Request) :
    (∀ p ∈ (ofString s).session qs,
      p.2.consumed ≤ s.toList.length ∧ p.2.rest = s.toList.drop p.2.consumed ∧
      p.2.location.line = (s.toList.take p.2.consumed).count '\n' + 1 ∧
      p.2.location.column =
        ((s.toList.take p.2.consumed).reverse.takeWhile (· ≠ '\n')).length + 1 ∧
      p.2.remaining = s.toList.length - p.2.consumed) ∧
    (∀ p ∈ qs.zip ((ofString s).session qs), p.1 = .remaining →
      p.2.1 = .count (s.toList.length - p.2.2.consumed)) ∧
    ((ofString s).session qs).Pairwise (fun p q => p.2.consumed ≤ q.2.consumed) ∧
    ((ofString s).session (List.replicate (s.toList.length + 1) .next)).map Prod.fst =
      s.toList.map (fun ch => Reply.char (some ch)) ++ [Reply.char none] := by
  have h0 := reads_ofList s.toList
  refine ⟨?_, h0.session_remaining qs, (session_consumed_mono _ qs).2, session_next_all _⟩
  intro p hp
  have h := h0.session qs p hp
  have hloc := h.location_eq
  exact ⟨h.consumed_le, h.rest_eq, by rw [hloc]; rfl, by rw [hloc]; rfl, h.remaining_eq⟩

end Cursor

end TemplateLex
