import TemplateLex.Proofs.CursorState
import TemplateLex.Proofs.ReadStep
import TemplateLex.Text.Lines
import Mathlib.Data.List.TakeWhile
import Mathlib.Logic.Function.Iterate

/-! Cursor locations against the lines of a source. A cursor opens a line at a line feed alone, a
source also at a carriage return; the two agree exactly when every carriage return is followed by a
line feed, and a lone one breaks the agreement right after it. -/
namespace TemplateLex

/-- Every carriage return of `cs` is followed at once by a line feed. -/
def NoLoneReturn (cs : List Char) : Prop := ∀ i, cs[i]? = some '\r' → cs[i + 1]? = some '\n'

theorem noLoneReturn_iff_bounded (cs : List Char) :
    NoLoneReturn cs ↔ ∀ i < cs.length, cs[i]? = some '\r' → cs[i + 1]? = some '\n' := by
  constructor
  · intro noLone i _ ret
    exact noLone i ret
  · intro bounded i ret
    exact bounded i (List.getElem?_eq_some_iff.mp ret).1 ret

instance : DecidablePred NoLoneReturn := fun cs =>
  decidable_of_iff _ (noLoneReturn_iff_bounded cs).symm

/-- A line end begins at position `p` of `cs`: a carriage return, or a line feed that no carriage
return comes right before. -/
def BeginsLineEnd (cs : List Char) (p : Nat) : Prop :=
  cs[p]? = some '\r' ∨ (cs[p]? = some '\n' ∧ (p = 0 ∨ cs[p - 1]? ≠ some '\r'))

/-- The cursor's locations agree with the lines of the source: after `p` requests for the next
character, for every `p` up to the length of the text, the cursor's line is a line of the source,
a character there that ends no line is the one at the cursor's column of that line, and at the end
of the text or where a line end begins the column is one past the line's last character. -/
def Source.LocationsMatchLines (src : Source) : Prop :=
  ∀ p ≤ src.content.toList.length,
    let loc := ((fun c : Cursor => (c.answer .next).2)^[p] (Cursor.ofString src.content)).location
    ∃ L, src.line? loc.line = some L ∧
      (∀ ch ∈ src.content.toList[p]?, ch ≠ '\r' → ch ≠ '\n' →
        L.toList[loc.column - 1]? = some ch) ∧
      (p = src.content.toList.length ∨ BeginsLineEnd src.content.toList p →
        loc.column = L.length + 1)

/-- Position `p` of `cs` agrees with the lines of `cs` at `loc`: the line of `loc` is a line of
`cs`, a character at `p` that ends no line stands at the column of `loc` there, and at the end of
the text or where a line end begins the column is one past the line. -/
def Agrees (cs : List Char) (p : Nat) (loc : Location) : Prop :=
  ∃ L ∈ (splitLines cs)[loc.line - 1]?,
    (∀ ch ∈ cs[p]?, ch ≠ '\r' → ch ≠ '\n' → L.body[loc.column - 1]? = some ch) ∧
    (p = cs.length ∨ BeginsLineEnd cs p → loc.column = L.body.length + 1)

section Lines

theorem splitLines_plain {c : Char} (notReturn : c ≠ '\r') (notFeed : c ≠ '\n')
    (rest : List Char) : splitLines (c :: rest) = Line.consFirst c (splitLines rest) := by
  rw [splitLines.eq_def]
  split <;> simp_all

theorem exists_splitLines_eq_cons (cs : List Char) : ∃ l ls, splitLines cs = l :: ls := by
  fun_cases splitLines cs with
  | case5 c rest _ notReturn notFeed =>
    cases splitLines rest <;> exact ⟨_, _, rfl⟩
  | _ => exact ⟨_, _, rfl⟩

theorem length_consFirst (c : Char) (l : Line) (ls : List Line) :
    (Line.consFirst c (l :: ls)).length = (l :: ls).length := rfl

theorem NoLoneReturn.tail {c : Char} {cs : List Char} (noLone : NoLoneReturn (c :: cs)) :
    NoLoneReturn cs :=
  fun i ret => noLone (i + 1) ret

theorem NoLoneReturn.not_lone {rest : List Char} (noLone : NoLoneReturn ('\r' :: rest))
    (notFeed : ∀ tail, rest = '\n' :: tail → False) : False := by
  have next := noLone 0 rfl
  cases rest with
  | nil => cases next
  | cons x tail =>
    obtain rfl : x = '\n' := by simpa using next
    exact notFeed tail rfl

theorem length_splitLines {cs : List Char} (noLone : NoLoneReturn cs) :
    (splitLines cs).length = cs.count '\n' + 1 := by
  fun_induction splitLines cs with
  | case1 => rfl
  | case2 rest ih => simp [ih noLone.tail.tail]
  | case3 rest notFeed ih => exact (noLone.not_lone notFeed).elim
  | case4 rest ih => simp [ih noLone.tail]
  | case5 c rest _ notReturn notFeed ih =>
    obtain ⟨l, ls, lines⟩ := exists_splitLines_eq_cons rest
    rw [lines, length_consFirst, ← lines, ih noLone.tail, List.count_cons_of_ne notFeed]

end Lines

section Locations

theorem takeWhile_append_stop {p : Char → Bool} {a : Char} (stop : p a = false)
    (l m : List Char) : (l ++ a :: m).takeWhile p = l.takeWhile p := by
  induction l with
  | nil => simp [stop]
  | cons x l ih => simp [List.takeWhile_cons, ih]

theorem Location.line_ofRead_eq_one {cs : List Char} :
    (Location.ofRead cs).line = 1 ↔ '\n' ∉ cs := by
  simp [Location.ofRead, List.count_eq_zero]

theorem Location.ofRead_feed (cs : List Char) :
    ofRead ('\n' :: cs) = ⟨(ofRead cs).line + 1, (ofRead cs).column⟩ := by
  have stop : decide ('\n' ≠ '\n') = false := by decide
  simp only [ofRead, List.reverse_cons, takeWhile_append_stop (p := fun x => decide (x ≠ '\n')) stop,
    List.count_cons_self]

theorem Location.ofRead_cons {c : Char} (notFeed : c ≠ '\n') (cs : List Char) :
    ofRead (c :: cs) =
      if (ofRead cs).line = 1 then ⟨1, (ofRead cs).column + 1⟩ else ofRead cs := by
  have count : (c :: cs).count '\n' = cs.count '\n' := List.count_cons_of_ne notFeed
  by_cases feed : '\n' ∈ cs
  · have stops : (cs.reverse.takeWhile (· ≠ '\n')).length ≠ cs.reverse.length := by
      intro same
      have all := List.takeWhile_eq_self_iff.mp ((List.takeWhile_prefix _).eq_of_length same)
      simpa using all '\n' (List.mem_reverse.mpr feed)
    rw [if_neg (mt line_ofRead_eq_one.mp (not_not.mpr feed)), ofRead, ofRead, count,
      List.reverse_cons, List.takeWhile_append, if_neg stops]
  · have all : ∀ x ∈ cs.reverse, decide (x ≠ '\n') = true := by
      intro x member
      simp only [ne_eq, decide_eq_true_eq]
      rintro rfl
      exact feed (List.mem_reverse.mp member)
    rw [if_pos (line_ofRead_eq_one.mpr feed), ofRead, ofRead, count,
      List.count_eq_zero_of_not_mem feed, List.reverse_cons, List.takeWhile_append_of_pos all,
      List.takeWhile_eq_self_iff.mpr all]
    simp [notFeed]

theorem Cursor.answer_next (c : Cursor) : (c.answer .next).2 = c.skip 1 := by
  obtain ⟨rest, consumed, location⟩ := c
  cases rest <;> simp [answer, next?, skip]

theorem Cursor.iterate_next (p : Nat) (c : Cursor) :
    (fun c : Cursor => (c.answer .next).2)^[p] c = c.skip p := by
  induction p generalizing c with
  | zero => simp
  | succ p ih =>
    rw [Function.iterate_succ_apply, ih, answer_next, skip_skip, Nat.add_comm]

theorem location_iterate_next (s : String) (p : Nat) :
    ((fun c : Cursor => (c.answer .next).2)^[p] (Cursor.ofString s)).location =
      Location.ofRead (s.toList.take p) := by
  rw [Cursor.iterate_next, Cursor.location_skip, ← Location.start_advanceAll]
  rfl

end Locations

section Agreement

theorem beginsLineEnd_succ {c : Char} {cs : List Char} {p : Nat} (apart : c ≠ '\r' ∨ 0 < p) :
    BeginsLineEnd (c :: cs) (p + 1) ↔ BeginsLineEnd cs p := by
  cases p with
  | zero =>
    have notReturn : c ≠ '\r' := apart.resolve_right (Nat.lt_irrefl 0)
    simp [BeginsLineEnd, notReturn]
  | succ p => simp [BeginsLineEnd]

theorem Agrees.below {cs rest : List Char} {first : Line} {p q : Nat} {loc : Location}
    (agrees : Agrees rest p loc) (line : 1 ≤ loc.line)
    (lines : splitLines cs = first :: splitLines rest) (char : cs[q]? = rest[p]?)
    (ends : q = cs.length ↔ p = rest.length) (begins : BeginsLineEnd cs q ↔ BeginsLineEnd rest p) :
    Agrees cs q ⟨loc.line + 1, loc.column⟩ := by
  obtain ⟨L, mem, plain, column⟩ := agrees
  obtain ⟨n, hn⟩ : ∃ n, loc.line = n + 1 := ⟨loc.line - 1, by omega⟩
  refine ⟨L, ?_, ?_, ?_⟩
  · rw [hn] at mem
    simpa [lines, hn] using mem
  · rw [char]
    exact plain
  · rw [ends, begins]
    exact column

theorem Agrees.consFirst {c : Char} (notReturn : c ≠ '\r') (notFeed : c ≠ '\n')
    {rest : List Char} {p : Nat} {loc : Location} (agrees : Agrees rest p loc)
    (line : 1 ≤ loc.line) (column : 1 ≤ loc.column) :
    Agrees (c :: rest) (p + 1) (if loc.line = 1 then ⟨1, loc.column + 1⟩ else loc) := by
  obtain ⟨L, mem, plain, ends⟩ := agrees
  obtain ⟨l, ls, lines⟩ := exists_splitLines_eq_cons rest
  have char : (c :: rest)[p + 1]? = rest[p]? := rfl
  have atEnd : p + 1 = (c :: rest).length ↔ p = rest.length := by simp
  have begins : BeginsLineEnd (c :: rest) (p + 1) ↔ BeginsLineEnd rest p :=
    beginsLineEnd_succ (.inl notReturn)
  have split := splitLines_plain notReturn notFeed rest
  rw [lines] at split mem
  split_ifs with first
  · rw [first] at mem
    obtain rfl : l = L := by simpa using mem
    obtain ⟨k, hk⟩ : ∃ k, loc.column = k + 1 := ⟨loc.column - 1, by omega⟩
    refine ⟨⟨c :: l.body, l.ending⟩, by simp [split, Line.consFirst], ?_, ?_⟩
    · intro ch member notReturn' notFeed'
      rw [char] at member
      simpa [hk] using plain ch member notReturn' notFeed'
    · intro stop
      rw [atEnd, begins] at stop
      have column := ends stop
      simp only [List.length_cons]
      omega
  · obtain ⟨n, hn⟩ : ∃ n, loc.line = n + 2 := ⟨loc.line - 2, by omega⟩
    refine ⟨L, ?_, ?_, ?_⟩
    · rw [hn] at mem ⊢
      simpa [split, Line.consFirst] using mem
    · rw [char]
      exact plain
    · rw [atEnd, begins]
      exact ends

theorem line_ofRead_pos (cs : List Char) : 1 ≤ (Location.ofRead cs).line := by
  simp [Location.ofRead]

theorem column_ofRead_pos (cs : List Char) : 1 ≤ (Location.ofRead cs).column := by
  simp [Location.ofRead]

/-- Without lone carriage returns, every position agrees with the lines at the location after the
characters before it. -/
theorem agrees_of_noLoneReturn {cs : List Char} (noLone : NoLoneReturn cs) :
    ∀ p ≤ cs.length, Agrees cs p (Location.ofRead (cs.take p)) := by
  -- the induction follows the lines: a line end puts a line in front, and any other character
  -- goes in front of the first line
  fun_induction splitLines cs with
  | case1 =>
    intro p bound
    obtain rfl : p = 0 := by simpa using bound
    exact ⟨⟨[], .final⟩, rfl, by simp, fun _ => rfl⟩
  | case2 rest ih =>
    have agrees := ih noLone.tail.tail
    intro p bound
    match p with
    | 0 => exact ⟨⟨[], .returnFeed⟩, rfl, by simp, fun _ => rfl⟩
    | 1 =>
      refine ⟨⟨[], .returnFeed⟩, rfl, by simp, fun stop => ?_⟩
      simp [BeginsLineEnd] at stop
    | p + 2 =>
      have loc : Location.ofRead (('\r' :: '\n' :: rest).take (p + 2)) =
          ⟨(Location.ofRead (rest.take p)).line + 1, (Location.ofRead (rest.take p)).column⟩ := by
        rw [List.take_succ_cons, List.take_succ_cons, Location.ofRead_cons (by decide),
          Location.ofRead_feed]
        simp [Nat.pos_iff_ne_zero.mp (line_ofRead_pos (rest.take p))]
      rw [loc]
      exact (agrees p (by simpa using bound)).below (line_ofRead_pos _) rfl rfl (by simp)
        ((beginsLineEnd_succ (.inr (Nat.succ_pos p))).trans (beginsLineEnd_succ (.inl (by decide))))
  | case3 rest notFeed ih => exact (noLone.not_lone notFeed).elim
  | case4 rest ih =>
    have agrees := ih noLone.tail
    intro p bound
    match p with
    | 0 => exact ⟨⟨[], .feed⟩, rfl, by simp, fun _ => rfl⟩
    | p + 1 =>
      rw [List.take_succ_cons, Location.ofRead_feed]
      exact (agrees p (by simpa using bound)).below (line_ofRead_pos _) rfl rfl (by simp)
        (beginsLineEnd_succ (.inl (by decide)))
  | case5 c rest _ notReturn notFeed ih =>
    have agrees := ih noLone.tail
    intro p bound
    match p with
    | 0 =>
      obtain ⟨l, ls, lines⟩ := exists_splitLines_eq_cons rest
      refine ⟨⟨c :: l.body, l.ending⟩, ?_, ?_, fun stop => ?_⟩
      · simp [splitLines_plain notReturn notFeed, lines, Line.consFirst, Location.start]
      · simp [Location.start]
      · simp [BeginsLineEnd] at stop
        exact (stop.elim notReturn notFeed).elim
    | p + 1 =>
      rw [List.take_succ_cons, Location.ofRead_cons notFeed]
      exact (agrees p (by simpa using bound)).consFirst notReturn notFeed (line_ofRead_pos _)
        (column_ofRead_pos _)

/-- A lone carriage return breaks the agreement: it ends a line for the source, but the cursor
reads on in the same line, one column past the end of that line. -/
theorem noLoneReturn_of_agrees {cs : List Char}
    (agrees : ∀ p ≤ cs.length, Agrees cs p (Location.ofRead (cs.take p))) : NoLoneReturn cs := by
  intro i ret
  have bound : i < cs.length := (List.getElem?_eq_some_iff.mp ret).1
  obtain ⟨L, mem, -, ends⟩ := agrees i bound.le
  have lineEnd := ends (.inr (.inl ret))
  have next : Location.ofRead (cs.take (i + 1)) =
      ⟨(Location.ofRead (cs.take i)).line, (Location.ofRead (cs.take i)).column + 1⟩ := by
    rw [List.take_add_one, ret, Option.toList_some, Location.ofRead_append_singleton]
    simp [Location.advance]
  obtain ⟨L', mem', plain', ends'⟩ := agrees (i + 1) bound
  rw [next] at mem' plain' ends'
  dsimp only at mem' plain' ends'
  obtain rfl : L' = L := Option.some.inj ((Option.mem_def.mp mem').symm.trans mem)
  cases follow : cs[i + 1]? with
  | none =>
    have atEnd : i + 1 = cs.length := by
      have := List.getElem?_eq_none_iff.mp follow
      omega
    have := ends' (.inl atEnd)
    omega
  | some ch =>
    by_cases feed : ch = '\n'
    · rw [feed]
    · exfalso
      by_cases ret' : ch = '\r'
      · have := ends' (.inr (.inl (by rw [follow, ret'])))
        omega
      · have found := plain' ch follow ret' feed
        rw [lineEnd] at found
        simp at found

theorem locationsMatchLines_iff_agrees (src : Source) :
    src.LocationsMatchLines ↔ ∀ p ≤ src.content.toList.length,
      Agrees src.content.toList p (Location.ofRead (src.content.toList.take p)) := by
  unfold Source.LocationsMatchLines
  refine forall₂_congr fun p bound => ?_
  rw [location_iterate_next]
  obtain ⟨n, hn⟩ : ∃ n, (Location.ofRead (src.content.toList.take p)).line = n + 1 := ⟨_, rfl⟩
  simp only [Agrees, hn, Source.line?, Source.lines, Nat.add_sub_cancel]
  constructor
  · rintro ⟨L, found, plain, ends⟩
    obtain ⟨l, mem, rfl⟩ := Option.map_eq_some_iff.mp found
    exact ⟨l, mem, by simpa using plain, by simpa using ends⟩
  · rintro ⟨l, mem, plain, ends⟩
    exact ⟨String.ofList l.body, by simp [Option.mem_def.mp mem], by simpa using plain,
      by simpa using ends⟩

end Agreement

/-- The cursor's locations agree with the lines of a source exactly when every carriage return of
it is followed by a line feed; then the source has as many lines as the line the cursor is on
once it has read the whole text. -/
theorem lines_agree_iff_no_lone_return (src : Source) :
    (NoLoneReturn src.content.toList ↔ src.LocationsMatchLines) ∧
      (NoLoneReturn src.content.toList → src.lineCount =
        ((fun c : Cursor => (c.answer .next).2)^[src.content.toList.length]
          (Cursor.ofString src.content)).location.line) := by
  rw [locationsMatchLines_iff_agrees]
  refine ⟨⟨agrees_of_noLoneReturn, noLoneReturn_of_agrees⟩, fun noLone => ?_⟩
  rw [location_iterate_next, List.take_length, Source.lineCount, Source.lines,
    length_splitLines noLone]
  rfl

theorem lone_return_breaks_agreement :
    (NoLoneReturn "a\r\nb".toList ∧ (Source.mk "text" "a\r\nb").lineCount = 2 ∧
      (Source.mk "text" "a\r\nb").LocationsMatchLines) ∧
    ¬ (Source.mk "text" "a\rb").LocationsMatchLines := by
  have pair : NoLoneReturn "a\r\nb".toList := by decide
  have agree := lines_agree_iff_no_lone_return (Source.mk "text" "a\r\nb")
  have lone := (lines_agree_iff_no_lone_return (Source.mk "text" "a\rb")).1
  refine ⟨⟨pair, ?_, agree.1.mp pair⟩, fun agreeing => ?_⟩
  · rw [agree.2 pair]
    decide
  · have broken : ¬ NoLoneReturn "a\rb".toList := by decide
    exact broken (lone.mpr agreeing)

end TemplateLex
