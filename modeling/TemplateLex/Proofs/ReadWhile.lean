import TemplateLex.Lexer.ReadWhile
import TemplateLex.Proofs.ReadStep

/-! What reading a run with a predicate does, for every predicate and every state it keeps: the
predicate is asked about each character to come, in order and once, up to the first it refuses, and
the run read is the longest run of the reader it makes. -/
namespace TemplateLex

section Follows

variable {σ τ : Type} {next : σ → Char → Option σ} {next' : τ → Char → Option τ}

/-- A reader whose every step, seen through `view`, is the step another reader takes from the
view of its state reads the same runs. -/
theorem longestRun_of_follows (view : τ → σ)
    (follows : ∀ t ch, (next' t ch).map view = next (view t) ch) (t : τ) (cs : List Char) :
    longestRun next' t cs = longestRun next (view t) cs := by
  induction cs generalizing t with
  | nil => rfl
  | cons ch cs ih =>
    have step := follows t ch
    cases taken : next' t ch with
    | none =>
      rw [taken, Option.map_none] at step
      simp [longestRun, taken, ← step]
    | some t' =>
      rw [taken, Option.map_some] at step
      simp [longestRun, taken, ← step, ih]

end Follows

namespace Cursor

section Predicate

variable {σ : Type} (call : σ → Char → Bool × σ)

/-- The reader of runs that a predicate makes: it takes a character the predicate accepts, in the
state that call leaves. -/
def accepting (s : σ) (ch : Char) : Option σ :=
  if (call s ch).1 then some (call s ch).2 else none

/-- The state a predicate is left in once it has been asked about each of `cs` in turn. -/
def afterCalls (s : σ) (cs : List Char) : σ := cs.foldl (fun s ch => (call s ch).2) s

def AcceptsAll : σ → List Char → Prop
  | _, [] => True
  | s, ch :: cs => (call s ch).1 = true ∧ AcceptsAll (call s ch).2 cs

/-- The characters under the cursor that the predicate accepts, from state `s` on. -/
def accepted (s : σ) (c : Cursor) : List Char := longestRun (accepting call) s c.rest

/-- The predicate, made to log each character it is asked about after the ones before. -/
def logCalls (st : σ × List Char) (ch : Char) : Bool × (σ × List Char) :=
  ((call st.1 ch).1, ((call st.1 ch).2, st.2 ++ [ch]))

@[simp] theorem afterCalls_nil (s : σ) : afterCalls call s [] = s := rfl

@[simp] theorem afterCalls_cons (s : σ) (ch : Char) (cs : List Char) :
    afterCalls call s (ch :: cs) = afterCalls call (call s ch).2 cs := rfl

theorem afterCalls_append (s : σ) (xs ys : List Char) :
    afterCalls call s (xs ++ ys) = afterCalls call (afterCalls call s xs) ys :=
  List.foldl_append

theorem longestRun_accepting_of_accept {s s' : σ} {ch : Char} (accept : call s ch = (true, s'))
    (cs : List Char) :
    longestRun (accepting call) s (ch :: cs) = ch :: longestRun (accepting call) s' cs := by
  simp [longestRun, accepting, accept]

theorem longestRun_accepting_of_refuse {s : σ} {ch : Char} (refuse : (call s ch).1 = false)
    (cs : List Char) : longestRun (accepting call) s (ch :: cs) = [] := by
  simp [longestRun, accepting, refuse]

theorem accepted_logCalls (s : σ) (log : List Char) (c : Cursor) :
    c.accepted (logCalls call) (s, log) = c.accepted call s := by
  have follows : ∀ st ch,
      (accepting (logCalls call) st ch).map Prod.fst = accepting call st.1 ch := by
    intro st ch
    cases answer : (call st.1 ch).1 <;> simp [accepting, logCalls, answer]
  exact longestRun_of_follows Prod.fst follows _ c.rest

theorem afterCalls_logCalls (s : σ) (log cs : List Char) :
    afterCalls (logCalls call) (s, log) cs = (afterCalls call s cs, log ++ cs) := by
  induction cs generalizing s log with
  | nil => simp
  | cons ch cs ih => simp [logCalls, ih]

theorem acceptsAll_longestRun (s : σ) (cs : List Char) :
    AcceptsAll call s (longestRun (accepting call) s cs) := by
  induction cs generalizing s with
  | nil => trivial
  | cons ch cs ih =>
    cases answer : (call s ch).1 with
    | false => rw [longestRun_accepting_of_refuse call answer]; trivial
    | true =>
      rw [longestRun_accepting_of_accept call (Prod.ext answer rfl)]
      exact ⟨answer, ih _⟩

theorem refuses_after_longestRun (s : σ) (cs : List Char) :
    ∀ ch ∈ (cs.drop (longestRun (accepting call) s cs).length).head?,
      (call (afterCalls call s (longestRun (accepting call) s cs)) ch).1 = false := by
  induction cs generalizing s with
  | nil => simp
  | cons ch cs ih =>
    cases answer : (call s ch).1 with
    | false => simpa [longestRun_accepting_of_refuse call answer] using answer
    | true =>
      rw [longestRun_accepting_of_accept call (Prod.ext answer rfl)]
      simpa using ih _

end Predicate

theorem next?_eq_none {c : Cursor} (h : c.next? = none) : c.rest = [] := by
  unfold next? at h
  split at h
  · assumption
  · cases h

theorem next?_eq_some {c c' : Cursor} {ch : Char} (h : c.next? = some (ch, c')) :
    ∃ rest, c.rest = ch :: rest ∧ c' = ⟨rest, c.consumed + 1, c.location.advance ch⟩ := by
  unfold next? at h
  split at h
  · cases h
  · rename_i x rest split
    cases h
    exact ⟨rest, split, rfl⟩

theorem skip_succ {c : Cursor} {ch : Char} {rest : List Char} (split : c.rest = ch :: rest)
    (k : Nat) : c.skip (k + 1) = Cursor.skip ⟨rest, c.consumed + 1, c.location.advance ch⟩ k := by
  simp only [skip, split, List.drop_succ_cons, List.take_succ_cons, List.length_cons,
    Location.advanceAll_cons]
  congr 1
  omega

section Loop

variable {σ : Type} (call : σ → Char → Bool × σ)

/-- The loop of a run read, said without stepping: from `c`, with `matched` taken before, it reads
the longest run the predicate accepts and leaves the predicate as the calls on that run and on the
character after it left it. -/
theorem readWhileFrom_eq (s : σ) (matched : List Char) (c : Cursor) :
    c.readWhileFrom call s matched =
      (if c.accepted call s ≠ [] ∧ c.accepted call s = c.rest then
          .error ⟨.unexpectedEnd, c.location.advanceAll c.rest⟩
        else endMatched (matched ++ c.accepted call s) (c.skip (c.accepted call s).length),
        c.skip (c.accepted call s).length,
        afterCalls call s (c.rest.take ((c.accepted call s).length + 1))) := by
  fun_induction readWhileFrom call s matched c with
  | case1 s matched c finished =>
    have empty := next?_eq_none finished
    simp [accepted, empty, longestRun]
  | case2 s matched c ch c' taken s' finished accept =>
    obtain ⟨rest, split, rfl⟩ := next?_eq_some taken
    have last : rest = [] := by simpa [atEnd] using finished
    subst last
    simp [accepted, split, longestRun_accepting_of_accept call accept, longestRun, accept, skip]
  | case3 s matched c ch c' taken s' more accept ih =>
    obtain ⟨rest, split, rfl⟩ := next?_eq_some taken
    have pending : rest ≠ [] := by simpa [atEnd] using more
    have run : c.accepted call s =
        ch :: accepted call s' ⟨rest, c.consumed + 1, c.location.advance ch⟩ := by
      simp [accepted, split, longestRun_accepting_of_accept call accept]
    -- with more to come, the run after this character is all that is left only if it is not empty
    have whole : ∀ run : List Char, run ≠ [] ∧ run = rest ↔ run = rest :=
      fun run => and_iff_right_of_imp fun all => all ▸ pending
    rw [ih, run, List.length_cons, skip_succ split]
    simp [split, accept, whole]
  | case4 s matched c ch c' taken keep s' accept refused =>
    obtain ⟨rest, split, rfl⟩ := next?_eq_some taken
    have refuse : (call s ch).1 = false := by simp [accept, refused]
    simp [accepted, split, longestRun_accepting_of_refuse call refuse, accept]

theorem readWhile_eq (s : σ) (c : Cursor) :
    c.readWhile call s =
      (if c.accepted call s = [] then .error ⟨.unmatched, c.location⟩
        else if c.accepted call s = c.rest then
          .error ⟨.unexpectedEnd, c.location.advanceAll c.rest⟩
        else .ok (c.accepted call s),
        c.skip (c.accepted call s).length,
        afterCalls call s (c.rest.take ((c.accepted call s).length + 1))) := by
  rw [readWhile, readWhileFrom_eq, List.nil_append]
  by_cases empty : c.accepted call s = []
  · simp [empty, endMatched]
  · by_cases whole : c.accepted call s = c.rest
    · rw [if_pos ⟨empty, whole⟩, if_neg empty, if_pos whole]
    · rw [if_neg fun both => whole both.2, if_neg empty, if_neg whole]
      simp [endMatched, empty]

/-- Reading a run asks the predicate about the characters to come, in order and once each, up to
and including the first one it refuses: made to log them, it logs exactly those, and whatever
state it keeps, it is left as those calls leave it. The characters read are exactly the ones
accepted before that refusal.
Reading fails with an unexpected end, at the end of the input, when it read the last character; as
an unmatched run, having read nothing, when there was nothing left or the first character was
refused; and otherwise hands out the characters read. -/
theorem readWhile_reads_accepted_run (s : σ) (c : Cursor) :
    (AcceptsAll call s (c.accepted call s) ∧
      ∀ ch ∈ (c.rest.drop (c.accepted call s).length).head?,
        (call (afterCalls call s (c.accepted call s)) ch).1 = false) ∧
    ((c.readWhile (logCalls call) (s, [])).2.2.2 = c.rest.take ((c.accepted call s).length + 1) ∧
      (c.readWhile call s).2.2 = afterCalls call s (c.rest.take ((c.accepted call s).length + 1))) ∧
    (c.readWhile call s).2.1 = c.skip (c.accepted call s).length ∧
    (c.readWhile call s).1 =
      if c.accepted call s = [] then .error ⟨.unmatched, c.location⟩
      else if c.accepted call s = c.rest then .error ⟨.unexpectedEnd, c.location.advanceAll c.rest⟩
      else .ok (c.accepted call s) := by
  have read := c.readWhile_eq call s
  have logged := c.readWhile_eq (logCalls call) (s, [])
  refine ⟨⟨acceptsAll_longestRun call s c.rest, refuses_after_longestRun call s c.rest⟩,
    ⟨?_, ?_⟩, ?_, ?_⟩
  · rw [logged, accepted_logCalls, afterCalls_logCalls, List.nil_append]
  · rw [read]
  · rw [read]
  · rw [read]

-- the digit class, logged, is asked about the refused letter, and about nothing past the end
example :
    ((ofString "12a").readWhile (logCalls (classCall Char.isDigit)) ((), [])).2.2.2 =
      ['1', '2', 'a'] ∧
    ((ofString "12").readWhile (logCalls (classCall Char.isDigit)) ((), [])).2.2.2 =
      ['1', '2'] := by
  rw [readWhile_eq, readWhile_eq]
  decide

end Loop

end Cursor

end TemplateLex
