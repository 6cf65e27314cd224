import TemplateLex.Proofs.ReadStep
import TemplateLex.Lexer.Session

/-! Peeking against reading without it. Deleting the peeks from a run of requests leaves every read
and every item of the iteration as it was, except for an iterate request that finds an outcome read
ahead where the run without peeks has used up its input. -/
namespace TemplateLex

namespace Cursor

theorem step_of_rest_nil {c : Cursor} (done : c.rest = []) :
    c.step = (.error ⟨.unexpectedEnd, c.location⟩, c) := by
  rw [step_eq_read, read_of_blanks (w := []) done (by simp [Blanks])]
  simp

end Cursor

namespace Lexer

def Request.isPeek : Request → Bool
  | .peek => true
  | _ => false

def dropPeeks (qs : List Request) : List Request := qs.filter (fun q => !q.isPeek)

/-- The lexer after answering the requests in turn. -/
def run (l : Lexer) (qs : List Request) : Lexer := qs.foldl (fun l q => (l.answer q).2) l

@[simp] theorem run_nil (l : Lexer) : l.run [] = l := rfl

@[simp] theorem run_cons (l : Lexer) (q : Request) (qs : List Request) :
    l.run (q :: qs) = (l.answer q).2.run qs := rfl

theorem run_append (l : Lexer) (xs ys : List Request) : l.run (xs ++ ys) = (l.run xs).run ys :=
  List.foldl_append

@[simp] theorem dropPeeks_nil : dropPeeks [] = [] := rfl

theorem dropPeeks_peek (qs : List Request) : dropPeeks (.peek :: qs) = dropPeeks qs := rfl

theorem dropPeeks_cons {q : Request} (other : q.isPeek = false) (qs : List Request) :
    dropPeeks (q :: qs) = q :: dropPeeks qs := by
  simp [dropPeeks, other]

/-- `l` answers the requests of `l'` and peeks besides. Either nothing is read ahead and the two
agree; or `l` holds what `l'`'s next step reads, with the cursor after that step; or the two have
parted on an iterate request: both at the end of the input, `l` halted and `l'` not, and `l`
holding at most the end-of-input error read ahead. -/
inductive Tracks : Lexer → Lexer → Prop
  | even (c : Cursor) (halted : Bool) : Tracks ⟨c, none, halted⟩ ⟨c, none, halted⟩
  | early {c c' : Cursor} {r : Outcome} (halted : Bool) (read : c.step = (r, c')) :
      Tracks ⟨c', some r, halted⟩ ⟨c, none, halted⟩
  | parted {c : Cursor} (done : c.rest = []) (held : Option Outcome)
      (stale : held = none ∨ held = some c.step.1) : Tracks ⟨c, held, true⟩ ⟨c, none, false⟩

/-- Where an iterate request parts `l` from `l'`: `l` holds an outcome read ahead while iteration
goes on, and `l'` has used up its input. -/
def Parts (l l' : Lexer) : Prop := l.halted = false ∧ l.lookahead.isSome ∧ l'.cursor.atEnd

theorem Tracks.peek {l l' : Lexer} (tracks : Tracks l l') : Tracks (l.answer .peek).2 l' := by
  cases tracks with
  | even c halted =>
    cases read : c.step with
    | mk r c' => simpa [answer, Lexer.peek, read] using Tracks.early halted read
  | early halted read => exact .early halted read
  | parted done held stale =>
    rcases stale with rfl | rfl
    · have read := Cursor.step_of_rest_nil done
      simpa [answer, Lexer.peek, read] using Tracks.parted done _ (.inr (by rw [read]))
    · exact .parted done _ (.inr rfl)

theorem Tracks.answer {l l' : Lexer} (tracks : Tracks l l') {q : Request}
    (other : q.isPeek = false) : Tracks (l.answer q).2 (l'.answer q).2 := by
  cases tracks with
  | even c halted =>
    cases q with
    | peek => cases other
    | atEnd => exact .even c halted
    | next =>
      cases read : c.step with
      | mk r c' => simpa [Lexer.answer, next, read] using Tracks.even c' halted
    | iterate =>
      cases read : c.step with
      | mk r c' =>
        by_cases stop : halted = true ∨ c.atEnd = true
        · simpa [Lexer.answer, iterate, stop] using Tracks.even c halted
        · simp only [not_or, Bool.not_eq_true] at stop
          simpa [Lexer.answer, iterate, next, read, stop] using Tracks.even c' _
  | early halted read =>
    rename_i c c' r
    cases q with
    | peek => cases other
    | atEnd => exact .early halted read
    | next => simpa [Lexer.answer, next, read] using Tracks.even c' halted
    | iterate =>
      cases halted with
      | true => simpa [Lexer.answer, iterate] using Tracks.early true read
      | false =>
        by_cases ended : c.atEnd = true
        · have done : c.rest = [] := by simpa [Cursor.atEnd] using ended
          rw [Cursor.step_of_rest_nil done] at read
          simp only [Prod.mk.injEq] at read
          obtain ⟨rfl, rfl⟩ := read
          simpa [Lexer.answer, iterate, next, ended] using Tracks.parted done none (.inl rfl)
        · have going : c.atEnd = false := by simpa using ended
          simpa [Lexer.answer, iterate, next, read, going] using Tracks.even c' _
  | parted done held stale =>
    rename_i c
    have ended : c.atEnd = true := by simp [Cursor.atEnd, done]
    have read := Cursor.step_of_rest_nil done
    cases q with
    | peek => cases other
    | atEnd => exact .parted done held stale
    | next =>
      rcases stale with rfl | rfl <;>
        simpa [Lexer.answer, next, read] using Tracks.parted done none (.inl rfl)
    | iterate => simpa [Lexer.answer, iterate, ended] using Tracks.parted done held stale

theorem Tracks.reply {l l' : Lexer} (tracks : Tracks l l') {q : Request}
    (consuming : q = .next ∨ q = .iterate) (kept : ¬(q = .iterate ∧ Parts l l')) :
    (l.answer q).1 = (l'.answer q).1 := by
  cases tracks with
  | even c halted => rfl
  | early halted read =>
    rename_i c c' r
    rcases consuming with rfl | rfl
    · simp [Lexer.answer, next, read]
    · cases halted with
      | true => simp [Lexer.answer, iterate]
      | false =>
        have going : c.atEnd = false := by
          simpa [Parts] using kept
        simp [Lexer.answer, iterate, next, read, going]
  | parted done held stale =>
    rename_i c
    have ended : c.atEnd = true := by simp [Cursor.atEnd, done]
    have read := Cursor.step_of_rest_nil done
    rcases consuming with rfl | rfl
    · rcases stale with rfl | rfl <;> simp [Lexer.answer, next, read]
    · simp [Lexer.answer, iterate, ended]

theorem Tracks.reply_parts {l l' : Lexer} (tracks : Tracks l l') (parts : Parts l l') :
    (l.answer .iterate).1 = .item (some (.error ⟨.unexpectedEnd, l'.cursor.location⟩)) ∧
      (l'.answer .iterate).1 = .item none := by
  obtain ⟨going, held, ended⟩ := parts
  cases tracks with
  | even c halted => cases held
  | early halted read =>
    rename_i c c' r
    have done : c.rest = [] := by simpa [Cursor.atEnd] using ended
    rw [Cursor.step_of_rest_nil done] at read
    simp only [Prod.mk.injEq] at read
    obtain ⟨rfl, rfl⟩ := read
    simp only at going
    subst going
    simp [Lexer.answer, iterate, next, ended]
  | parted done held stale => cases going

/-- The tracking holds along every run: the run with peeks against the same requests without. -/
theorem Tracks.run {l l' : Lexer} (tracks : Tracks l l') (qs : List Request) :
    Tracks (l.run qs) (l'.run (dropPeeks qs)) := by
  induction qs generalizing l l' with
  | nil => exact tracks
  | cons q qs ih =>
    cases peek : q.isPeek with
    | true =>
      cases q with
      | peek => simpa [dropPeeks_peek] using ih tracks.peek
      | _ => cases peek
    | false =>
      rw [dropPeeks_cons peek]
      exact ih (tracks.answer peek)

theorem answer_peek_peek (l : Lexer) :
    (l.answer .peek).2.answer .peek = l.answer .peek := by
  cases held : l.lookahead with
  | none =>
    cases read : l.cursor.step with
    | mk r c' => simp [answer, Lexer.peek, held, read]
  | some r => simp [answer, Lexer.peek, held]

theorem peek_holds (l : Lexer) :
    l.peek.2.lookahead = some l.peek.1 ∧ l.peek.2.halted = l.halted := by
  cases held : l.lookahead with
  | none => simp [Lexer.peek, held]
  | some r => simp [Lexer.peek, held]

theorem answer_next_of_held {l : Lexer} {r : Outcome} (held : l.lookahead = some r) :
    (l.answer .next).1 = .outcome r := by
  simp [answer, next, held]

theorem answer_iterate_of_held {l : Lexer} {r : Outcome} (held : l.lookahead = some r)
    (going : l.halted = false) : (l.answer .iterate).1 = .item (some r) := by
  simp [answer, iterate, next, held, going]

theorem run_quiet {l : Lexer} {r : Outcome} (held : l.lookahead = some r) (mid : List Request)
    (quiet : ∀ q ∈ mid, q = .peek ∨ q = .atEnd ∨ (q = .iterate ∧ l.halted = true)) :
    l.run mid = l := by
  induction mid with
  | nil => rfl
  | cons q mid ih =>
    have rest : ∀ q ∈ mid, q = .peek ∨ q = .atEnd ∨ (q = .iterate ∧ l.halted = true) :=
      fun q member => quiet q (List.mem_cons_of_mem _ member)
    have same : (l.answer q).2 = l := by
      rcases quiet q List.mem_cons_self with rfl | rfl | ⟨rfl, halted⟩
      · simp [answer, Lexer.peek, held]
      · rfl
      · simp [answer, iterate, halted]
    rw [run_cons, same, ih rest]

theorem halted_answer {l : Lexer} (halted : l.halted = true) (q : Request) :
    (l.answer q).2.halted = true := by
  cases q with
  | next => cases ahead : l.lookahead <;> simp [answer, next, ahead, halted]
  | peek => cases ahead : l.lookahead <;> simp [answer, Lexer.peek, ahead, halted]
  | iterate => simp [answer, iterate, halted]
  | atEnd => exact halted

theorem cursor_answer_of_rest_nil {l : Lexer} (done : l.cursor.rest = []) (q : Request) :
    (l.answer q).2.cursor = l.cursor := by
  have read := Cursor.step_of_rest_nil done
  have ended : l.cursor.atEnd = true := by simp [Cursor.atEnd, done]
  cases q with
  | next => cases ahead : l.lookahead <;> simp [answer, next, ahead, read]
  | peek => cases ahead : l.lookahead <;> simp [answer, Lexer.peek, ahead, read]
  | iterate =>
    cases halted : l.halted
    · cases ahead : l.lookahead <;> simp [answer, iterate, next, ahead, halted, ended]
    · simp [answer, iterate, halted]
  | atEnd => rfl

theorem spent_run {l : Lexer} (spent : l.halted = true ∨ l.cursor.rest = []) (mid : List Request) :
    (l.run mid).halted = true ∨ (l.run mid).cursor.rest = [] := by
  induction mid generalizing l with
  | nil => exact spent
  | cons q mid ih =>
    apply ih
    rcases spent with halted | done
    · exact .inl (halted_answer halted q)
    · exact .inr (by rw [cursor_answer_of_rest_nil done q, done])

theorem spent_of_iterate_none {l : Lexer} (nothing : (l.answer .iterate).1 = .item none) :
    l.halted = true ∨ l.cursor.rest = [] := by
  cases halted : l.halted with
  | true => exact .inl rfl
  | false =>
    cases ahead : l.lookahead with
    | some r => simp [answer_iterate_of_held ahead halted] at nothing
    | none =>
      cases ended : l.cursor.atEnd with
      | true => exact .inr (by simpa [Cursor.atEnd] using ended)
      | false => simp [answer, iterate, next, halted, ahead, ended] at nothing

theorem iterate_none_iff_of_spent {l : Lexer} (spent : l.halted = true ∨ l.cursor.rest = []) :
    (l.answer .iterate).1 = .item none ↔ l.halted = true ∨ l.lookahead = none := by
  rcases spent with halted | done
  · simp [answer, iterate, halted]
  · have ended : l.cursor.atEnd = true := by simp [Cursor.atEnd, done]
    cases ahead : l.lookahead with
    | none => simp [answer, iterate, ended, ahead]
    | some r => cases halted : l.halted <;> simp [answer, iterate, ahead, halted]

/-- Peeking is transparent except at a peeked end of input. For every text and every run of
requests: deleting the peeks changes the answer to a later read or iterate request exactly when it
is an iterate request that finds an outcome read ahead, with iteration going on, where the run
without peeks has used up its input; there the run with peeks yields the end-of-input error and
the run without yields nothing. A second peek answers as the first without moving the cursor.
A peek's outcome stays read ahead through peeks, end checks and halted iteration, and is the
answer of the next read or unhalted item. Once iteration has yielded nothing, a later item is
nothing exactly when iteration has halted or nothing is read ahead. -/
theorem peeking_transparent_except_at_end (s : String) :
    (∀ pre q, q = .next ∨ q = .iterate →
      ((((ofString s).run pre).answer q).1 = (((ofString s).run (dropPeeks pre)).answer q).1 ↔
        ¬(q = .iterate ∧ Parts ((ofString s).run pre) ((ofString s).run (dropPeeks pre)))) ∧
      (q = .iterate → Parts ((ofString s).run pre) ((ofString s).run (dropPeeks pre)) →
        (((ofString s).run pre).answer q).1 = .item (some (.error
          ⟨.unexpectedEnd, ((ofString s).run (dropPeeks pre)).cursor.location⟩)) ∧
        (((ofString s).run (dropPeeks pre)).answer q).1 = .item none)) ∧
    (∀ l : Lexer, (l.answer .peek).2.answer .peek = l.answer .peek) ∧
    (∀ (l : Lexer) (r : Outcome) (mid : List Request), (l.answer .peek).1 = .outcome r →
      (∀ q ∈ mid, q = .peek ∨ q = .atEnd ∨ (q = .iterate ∧ l.halted = true)) →
      (((l.answer .peek).2.run mid).answer .next).1 = .outcome r ∧
      (l.halted = false → (((l.answer .peek).2.run mid).answer .iterate).1 = .item (some r))) ∧
    (∀ pre mid, (((ofString s).run pre).answer .iterate).1 = .item none →
      ((((ofString s).run (pre ++ .iterate :: mid)).answer .iterate).1 = .item none ↔
        ((ofString s).run (pre ++ .iterate :: mid)).halted = true ∨
          ((ofString s).run (pre ++ .iterate :: mid)).lookahead = none)) := by
  refine ⟨?transparent, answer_peek_peek, ?held, ?fused⟩
  case transparent =>
    intro pre q consuming
    have tracks : Tracks ((ofString s).run pre) ((ofString s).run (dropPeeks pre)) :=
      (Tracks.even (Cursor.ofString s) false).run pre
    by_cases parting :
        q = .iterate ∧ Parts ((ofString s).run pre) ((ofString s).run (dropPeeks pre))
    · obtain ⟨rfl, parts⟩ := parting
      have replies := tracks.reply_parts parts
      refine ⟨⟨fun same => ?_, fun kept => absurd ⟨rfl, parts⟩ kept⟩, fun _ _ => replies⟩
      rw [replies.1, replies.2] at same
      simp at same
    · exact ⟨iff_of_true (tracks.reply consuming parting) parting, fun iterating parts =>
        absurd ⟨iterating, parts⟩ parting⟩
  case held =>
    intro l r mid peeked quiet
    obtain ⟨held, flag⟩ := peek_holds l
    have outcome : l.peek.1 = r := by simpa [answer] using peeked
    have after : (l.answer .peek).2 = l.peek.2 := rfl
    rw [outcome] at held
    rw [after, run_quiet held mid (by rw [flag]; exact quiet)]
    exact ⟨answer_next_of_held held, fun going => answer_iterate_of_held held (flag.trans going)⟩
  case fused =>
    intro pre mid nothing
    have spent := spent_run (spent_of_iterate_none nothing) (.iterate :: mid)
    rw [← run_append] at spent
    exact iterate_none_iff_of_spent spent

/-- On the empty text, an iterate request yields nothing, a peek reads the end-of-input error
ahead, and the next iterate request yields that error; without the peek it yields nothing. -/
theorem iterate_after_peek_at_end :
    ((ofString "").session [.iterate, .peek, .iterate]).map Prod.fst =
      [.item none, .outcome (.error ⟨.unexpectedEnd, ⟨1, 1⟩⟩),
        .item (some (.error ⟨.unexpectedEnd, ⟨1, 1⟩⟩))] ∧
    ((ofString "").session (dropPeeks [.iterate, .peek, .iterate])).map Prod.fst =
      [.item none, .item none] :=
  ⟨rfl, rfl⟩

end Lexer

end TemplateLex
