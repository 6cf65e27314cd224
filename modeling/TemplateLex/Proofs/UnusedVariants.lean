import TemplateLex.Proofs.Drivers

/-! Two variants that the lexer never hands out: an unmatched run, since a run scan starts only on a
character its run takes, and the period keyword, which no name spells. -/
namespace TemplateLex

/-- A scan that yields neither an unmatched run nor the period keyword. -/
def Scan.Readable (s : Scan) : Prop :=
  s.outcome ≠ .error .unmatched ∧ s.outcome ≠ .ok (.keyword .period)

def Outcome.Readable : Outcome → Prop
  | .error e => e.kind ≠ .unmatched
  | .ok t => t.value ≠ .keyword .period

section Scans

/-- What a scan of a character and what follows it can be, in the order the dispatch looks at the
character: a string, a number, a bracket or a brace, an operator, a name, or no token. -/
theorem scanToken_cons_cases (c : Char) (rest : List Char) :
    ((c = '"' || c = '\'') = true ∧ scanToken (c :: rest) = scanString c rest) ∨
    (c.isDigit = true ∧ scanToken (c :: rest) = scanNumber (c :: rest)) ∨
    (∃ t ∈ [Token.openParen, .closeParen, .openTemplate, .closeTemplate],
      scanToken (c :: rest) = ⟨1, .ok t⟩) ∨
    (isOperatorStart c = true ∧ scanToken (c :: rest) = scanOperator (c :: rest)) ∨
    (isNameStart c = true ∧ scanToken (c :: rest) = scanName (c :: rest)) ∨
    scanToken (c :: rest) = ⟨0, .error .unknownToken⟩ := by
  simp only [scanToken]
  by_cases quote : (c = '"' || c = '\'') = true
  · exact .inl ⟨quote, if_pos quote⟩
  simp only [if_neg quote]
  by_cases digit : c.isDigit = true
  · exact .inr (.inl ⟨digit, if_pos digit⟩)
  simp only [if_neg digit]
  by_cases openParen : c = '('
  · exact .inr (.inr (.inl ⟨.openParen, by simp, if_pos openParen⟩))
  simp only [if_neg openParen]
  by_cases closeParen : c = ')'
  · exact .inr (.inr (.inl ⟨.closeParen, by simp, if_pos closeParen⟩))
  simp only [if_neg closeParen]
  by_cases openBrace : c = '\x7b'
  · exact .inr (.inr (.inl ⟨.openTemplate, by simp, if_pos openBrace⟩))
  simp only [if_neg openBrace]
  by_cases closeBrace : c = '\x7d'
  · exact .inr (.inr (.inl ⟨.closeTemplate, by simp, if_pos closeBrace⟩))
  simp only [if_neg closeBrace]
  by_cases operator : isOperatorStart c = true
  · exact .inr (.inr (.inr (.inl ⟨operator, if_pos operator⟩)))
  simp only [if_neg operator]
  by_cases name : isNameStart c = true
  · exact .inr (.inr (.inr (.inr (.inl ⟨name, if_pos name⟩))))
  exact .inr (.inr (.inr (.inr (.inr (if_neg name)))))

theorem longestRun_cons_ne_nil {σ : Type} {next : σ → Char → Option σ} {s : σ} {c : Char}
    (takes : (next s c).isSome = true) (rest : List Char) : longestRun next s (c :: rest) ≠ [] := by
  obtain ⟨s', taken⟩ := Option.isSome_iff_exists.mp takes
  simp [longestRun, taken]

theorem operatorStep_isSome {c : Char} (start : isOperatorStart c = true) :
    (operatorStep operatorSpellings c).isSome = true := by
  obtain ⟨sp, member, head⟩ := List.any_eq_true.mp start
  have kept : sp.tail ∈ (operatorSpellings.filter (·.head? = some c)).map List.tail :=
    List.mem_map_of_mem (List.mem_filter.mpr ⟨member, head⟩)
  have nonempty : ((operatorSpellings.filter (·.head? = some c)).map List.tail).isEmpty = false :=
    List.isEmpty_eq_false_iff.mpr (List.ne_nil_of_mem kept)
  simp only [operatorStep, nonempty]
  rfl

theorem nameToken_ne_period {run : List Char} (chars : ∀ x ∈ run, isNameChar x = true) :
    nameToken (String.ofList run) ≠ .keyword .period := by
  unfold nameToken
  split
  · rename_i k found
    intro same
    obtain rfl : k = .period := by simpa using same
    have spelled : Keyword.period.spelling = String.ofList run := by
      simpa using List.find?_some found
    have point : run = ['.'] := by
      simpa [Keyword.spelling] using (congrArg String.toList spelled).symm
    exact absurd (chars '.' (by simp [point])) (by decide)
  · simp

theorem operatorToken_readable (text : String) :
    operatorToken text ≠ .error .unmatched ∧ operatorToken text ≠ .ok (.keyword .period) := by
  unfold operatorToken
  split
  · simp
  · split <;> simp

theorem endRun_readable {run after : List Char} {make : Except ErrorKind Token}
    (nonempty : run ≠ []) (made : make ≠ .error .unmatched ∧ make ≠ .ok (.keyword .period)) :
    (endRun run after make).Readable := by
  unfold endRun Scan.Readable
  rw [if_neg (by simpa using nonempty)]
  split
  · simp
  · exact made

theorem scanString_readable (quote : Char) (rest : List Char) :
    (scanString quote rest).Readable := by
  unfold scanString Scan.Readable
  obtain ⟨n, body⟩ := Quoted.decodeBody quote rest
  cases body with
  | ok text => simp
  | error failure => cases failure <;> simp

/-- No scan yields an unmatched run or the period keyword: each run scan starts on a character
its run takes. -/
theorem scanToken_readable (cs : List Char) : (scanToken cs).Readable := by
  cases cs with
  | nil => simp [Scan.Readable, scanToken_nil]
  | cons c rest =>
    rcases scanToken_cons_cases c rest with ⟨-, scan⟩ | ⟨digit, scan⟩ | ⟨t, bracket, scan⟩ |
      ⟨start, scan⟩ | ⟨start, scan⟩ | scan <;> rw [scan]
    · exact scanString_readable c rest
    · have takes : (numberStep false c).isSome = true := by simp [numberStep, digit]
      refine endRun_readable (longestRun_cons_ne_nil takes rest) ?_
      split <;> simp
    · simp only [List.mem_cons, List.not_mem_nil, or_false] at bracket
      rcases bracket with rfl | rfl | rfl | rfl <;> simp [Scan.Readable]
    · exact endRun_readable (longestRun_cons_ne_nil (operatorStep_isSome start) rest)
        (operatorToken_readable _)
    · have first : isNameChar c = true := by simp [isNameChar, start]
      have nonempty : (c :: rest).takeWhile isNameChar ≠ [] := by simp [first]
      refine endRun_readable nonempty ⟨by simp, ?_⟩
      intro same
      exact nameToken_ne_period (fun x member => List.all_eq_true.mp List.all_takeWhile x member)
        (Except.ok.inj same)
    · simp [Scan.Readable]

end Scans

theorem Cursor.step_readable (c : Cursor) : Outcome.Readable c.step.1 := by
  rw [Cursor.step_eq_read]
  obtain ⟨w, u, -, -, -, ⟨-, read⟩ | ⟨t, ok, read⟩ | ⟨k, -, error, read⟩⟩ := c.read_cases
  · simp [read, Outcome.Readable]
  · rw [read]
    intro period
    exact (scanToken_readable u).2 (by rw [ok, ← period])
  · rw [read]
    intro unmatched
    exact (scanToken_readable u).1 (by rw [error, show k = .unmatched from unmatched])

namespace Lexer

theorem answer_readable {l : Lexer} (held : ∀ r ∈ l.lookahead, Outcome.Readable r)
    (q : Request) :
    (∀ r ∈ (l.answer q).1.outcome?, Outcome.Readable r) ∧
      ∀ r ∈ (l.answer q).2.lookahead, Outcome.Readable r := by
  have stepped := l.cursor.step_readable
  cases q with
  | next =>
    cases ahead : l.lookahead with
    | none => simpa [answer, next, ahead, Reply.outcome?] using stepped
    | some r => simpa [answer, next, ahead, Reply.outcome?] using held r ahead
  | peek =>
    cases ahead : l.lookahead with
    | none => simpa [answer, peek, ahead, Reply.outcome?] using stepped
    | some r => simpa [answer, peek, ahead, Reply.outcome?] using held r ahead
  | iterate =>
    simp only [answer, iterate]
    split
    · simpa [Reply.outcome?] using held
    · cases ahead : l.lookahead with
      | none => simpa [next, ahead, Reply.outcome?] using stepped
      | some r => simpa [next, ahead, Reply.outcome?] using held r ahead
  | atEnd => simpa [answer, Reply.outcome?] using held

/-- Along a session every outcome handed out is readable, as long as the lexer started with a
readable outcome read ahead, if any. -/
theorem session_readable {l : Lexer} (held : ∀ r ∈ l.lookahead, Outcome.Readable r)
    (qs : List Request) : ∀ p ∈ l.session qs, ∀ r ∈ p.1.outcome?, Outcome.Readable r := by
  induction qs generalizing l with
  | nil => simp
  | cons q qs ih =>
    obtain ⟨reply, kept⟩ := answer_readable held q
    intro p member
    rw [session_cons, List.mem_cons] at member
    rcases member with rfl | later
    · exact reply
    · exact ih kept p later

/-- No request of any session on any source hands out an unmatched run or the period keyword,
whether it reads, peeks or iterates. -/
theorem session_never_unmatched_or_period (s : String) (qs : List Request) :
    ∀ p ∈ (ofString s).session qs, ∀ r ∈ p.1.outcome?,
      (∀ e, r = .error e → e.kind ≠ .unmatched) ∧ ∀ t, r = .ok t → t.value ≠ .keyword .period := by
  intro p member r handed
  have readable := session_readable (l := ofString s) (by simp [ofString]) qs p member r handed
  constructor
  · rintro e rfl
    exact readable
  · rintro t rfl
    exact readable

theorem point_reads_as_unknown_token :
    ((Reply.outcome (.error ⟨.unknownToken, ⟨1, 2⟩⟩), (⟨['.', 'b'], 1, ⟨1, 2⟩⟩ : Cursor)) ∈
        (ofString "a.b").session [.next, .next] ∧
      (.error ⟨.unknownToken, ⟨1, 2⟩⟩ : Outcome) ∈
        (Reply.outcome (.error ⟨.unknownToken, ⟨1, 2⟩⟩)).outcome?) ∧
    (∀ e, (.error ⟨.unknownToken, ⟨1, 2⟩⟩ : Outcome) = .error e → e.kind ≠ .unmatched) ∧
      ∀ t, (.error ⟨.unknownToken, ⟨1, 2⟩⟩ : Outcome) = .ok t → t.value ≠ .keyword .period := by
  have member : (Reply.outcome (.error ⟨.unknownToken, ⟨1, 2⟩⟩), (⟨['.', 'b'], 1, ⟨1, 2⟩⟩ : Cursor)) ∈
      (ofString "a.b").session [.next, .next] :=
    List.mem_cons_of_mem _ (List.mem_singleton.mpr rfl)
  exact ⟨⟨member, rfl⟩, session_never_unmatched_or_period "a.b" [.next, .next] _ member _ rfl⟩

end Lexer

end TemplateLex
