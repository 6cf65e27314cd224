import TemplateLex.Proofs.LineColumns
import Mathlib.Data.String.Basic

/-! How a source is cut into lines, said without the walk that cuts it: the split of a text at its
line ends is unique and is the source's lines, and the byte ranges the source keeps cover its bytes
one after another, each cut falling between two characters and holding its line. -/
namespace TemplateLex

/-- Characters that end no line: no carriage return and no line feed among them. -/
def Plain (cs : List Char) : Prop := ∀ c ∈ cs, c ≠ '\r' ∧ c ≠ '\n'

/-- `cs` is read from the left as the lines `ls`: each body ends no line, every line but the last
has a line end and the last runs to the end of the text, and a carriage return that ends a line on
its own is not followed by a line feed, since the two would end one line together. -/
inductive SplitsInto : List Char → List Line → Prop
  | final {body : List Char} : Plain body → SplitsInto body [⟨body, .final⟩]
  | ended {body rest : List Char} {ending : LineEnd} {ls : List Line} :
      Plain body → ending ≠ .final → (ending = .carriageReturn → rest.head? ≠ some '\n') →
      SplitsInto rest ls → SplitsInto (body ++ ending.chars ++ rest) (⟨body, ending⟩ :: ls)

/-- Byte ranges that cover the bytes from `a` up to `b` one after another: the first starts at `a`,
each starts where the one before it stops, none runs backwards, and the last stops at `b`. -/
inductive Tiling : List ByteRange → Nat → Nat → Prop
  | last {a b : Nat} : a ≤ b → Tiling [⟨a, b⟩] a b
  | cons {a m b : Nat} {rs : List ByteRange} : a ≤ m → Tiling rs m b → Tiling (⟨a, m⟩ :: rs) a b

section Split

theorem plain_cons {c : Char} {cs : List Char} :
    Plain (c :: cs) ↔ (c ≠ '\r' ∧ c ≠ '\n') ∧ Plain cs :=
  List.forall_mem_cons

theorem splitLines_plain_append {pending : List Char} (plain : Plain pending) {cs : List Char}
    {l : Line} {ls : List Line} (lines : splitLines cs = l :: ls) :
    splitLines (pending ++ cs) = ⟨pending ++ l.body, l.ending⟩ :: ls := by
  induction pending with
  | nil => exact lines
  | cons c pending ih =>
    obtain ⟨⟨notReturn, notFeed⟩, plain⟩ := plain_cons.mp plain
    rw [List.cons_append, splitLines_plain notReturn notFeed, ih plain]
    rfl

theorem splitLines_lineEnd (ending : LineEnd) (rest : List Char) (ends : ending ≠ .final)
    (paired : ending = .carriageReturn → rest.head? ≠ some '\n') :
    splitLines (ending.chars ++ rest) = ⟨[], ending⟩ :: splitLines rest := by
  cases ending with
  | feed => simp [LineEnd.chars, splitLines]
  | returnFeed => simp [LineEnd.chars, splitLines]
  | carriageReturn =>
    have alone : ∀ tail, rest = '\n' :: tail → False := fun tail feed => paired rfl (by simp [feed])
    rw [LineEnd.chars, List.singleton_append, splitLines.eq_3 rest alone]
  | final => exact absurd rfl ends

theorem SplitsInto.consFirst {c : Char} (notReturn : c ≠ '\r') (notFeed : c ≠ '\n')
    {cs : List Char} {ls : List Line} (split : SplitsInto cs ls) :
    SplitsInto (c :: cs) (Line.consFirst c ls) := by
  cases split with
  | final plain => exact .final (plain_cons.mpr ⟨⟨notReturn, notFeed⟩, plain⟩)
  | ended plain ends paired rest =>
    exact .ended (plain_cons.mpr ⟨⟨notReturn, notFeed⟩, plain⟩) ends paired rest

theorem SplitsInto.lineEnd (ending : LineEnd) {rest : List Char} {ls : List Line}
    (ends : ending ≠ .final) (paired : ending = .carriageReturn → rest.head? ≠ some '\n')
    (tail : SplitsInto rest ls) : SplitsInto (ending.chars ++ rest) (⟨[], ending⟩ :: ls) :=
  @SplitsInto.ended [] rest ending ls (by simp [Plain]) ends paired tail

theorem head?_ne_feed {rest : List Char} (notFeed : ∀ tail, rest = '\n' :: tail → False) :
    rest.head? ≠ some '\n' := by
  intro feed
  cases rest with
  | nil => cases feed
  | cons x tail =>
    obtain rfl : x = '\n' := by simpa using feed
    exact notFeed tail rfl

theorem splitsInto_splitLines (cs : List Char) : SplitsInto cs (splitLines cs) := by
  fun_induction splitLines cs with
  | case1 => exact .final (by simp [Plain])
  | case2 rest ih =>
    exact SplitsInto.lineEnd .returnFeed (by decide) (by simp) ih
  | case3 rest notFeed ih =>
    exact SplitsInto.lineEnd .carriageReturn (by decide) (fun _ => head?_ne_feed notFeed) ih
  | case4 rest ih =>
    exact SplitsInto.lineEnd .feed (by decide) (by simp) ih
  | case5 c rest _ notReturn notFeed ih => exact ih.consFirst notReturn notFeed

/-- A text has only one split: the one its lines make. -/
theorem SplitsInto.eq_splitLines {cs : List Char} {ls : List Line} (split : SplitsInto cs ls) :
    ls = splitLines cs := by
  induction split with
  | final plain =>
    have whole := splitLines_plain_append plain (show splitLines [] = [⟨[], .final⟩] from rfl)
    simpa using whole.symm
  | ended plain ends paired _ ih =>
    rw [List.append_assoc, splitLines_plain_append plain (splitLines_lineEnd _ _ ends paired), ih]
    simp

theorem splitsInto_iff {cs : List Char} {ls : List Line} :
    SplitsInto cs ls ↔ ls = splitLines cs :=
  ⟨SplitsInto.eq_splitLines, fun same => same ▸ splitsInto_splitLines cs⟩

theorem SplitsInto.flatten_text {cs : List Char} {ls : List Line} (split : SplitsInto cs ls) :
    (ls.map Line.text).flatten = cs := by
  induction split with
  | final => simp [Line.text, LineEnd.chars]
  | ended _ _ _ _ ih => simp [Line.text, ih]

theorem SplitsInto.length_eq {cs : List Char} {ls : List Line} (split : SplitsInto cs ls) :
    ls.length = 1 + ls.countP (·.ending != .final) := by
  induction split with
  | final => rfl
  | ended _ ends _ _ ih =>
    rw [List.countP_cons_of_pos (by simpa using ends), List.length_cons, ih]
    omega

theorem SplitsInto.plain {cs : List Char} {ls : List Line} (split : SplitsInto cs ls) :
    ∀ l ∈ ls, Plain l.body := by
  induction split with
  | final plain => simpa using plain
  | ended plain _ _ _ ih =>
    intro l member
    rcases List.mem_cons.mp member with rfl | later
    · exact plain
    · exact ih l later

end Split

section Ranges

open String (utf8Len utf8Len_cons utf8Len_append utf8Len_nil)

/-- The byte ranges of texts laid one after another from byte `a` on. -/
def spans : Nat → List (List Char) → List ByteRange
  | _, [] => []
  | a, t :: ts => ⟨a, a + utf8Len t⟩ :: spans (a + utf8Len t) ts

theorem utf8Size_return : '\r'.utf8Size = 1 := rfl

theorem utf8Size_feed : '\n'.utf8Size = 1 := rfl

theorem lineRangesFrom_closes {pending : List Char} (plain : Plain pending) (ending : LineEnd)
    (rest : List Char) (ends : ending ≠ .final)
    (paired : ending = .carriageReturn → rest.head? ≠ some '\n') {a pos size : Nat}
    (walked : pos = a + utf8Len pending)
    (step : lineRangesFrom size pos a (ending.chars ++ rest) =
      ⟨a, pos + utf8Len ending.chars⟩ ::
        lineRangesFrom size (pos + utf8Len ending.chars) (pos + utf8Len ending.chars) rest)
    (next : lineRangesFrom size (pos + utf8Len ending.chars) (pos + utf8Len ending.chars) rest =
      spans (pos + utf8Len ending.chars) ((splitLines rest).map Line.text)) :
    lineRangesFrom size pos a (ending.chars ++ rest) =
      spans a ((splitLines (pending ++ (ending.chars ++ rest))).map Line.text) := by
  rw [step, next, splitLines_plain_append plain (splitLines_lineEnd ending rest ends paired),
    List.map_cons, spans]
  simp [Line.text, utf8Len_append, walked, Nat.add_assoc]

/-- The walk finds the ranges of the lines laid one after another: it stands at byte `pos`, in a
line that started at byte `a` and holds `pending` so far, in a text of `size` bytes. -/
theorem lineRangesFrom_eq_spans (pending : List Char) (a pos : Nat) {cs : List Char} {size : Nat}
    (plain : Plain pending) (walked : pos = a + utf8Len pending) (sized : size = pos + utf8Len cs) :
    lineRangesFrom size pos a cs = spans a ((splitLines (pending ++ cs)).map Line.text) := by
  -- the walk follows the lines: a line end closes the current range, any other character goes on
  induction cs using splitLines.induct generalizing pending pos a with
  | case1 =>
    have whole := splitLines_plain_append plain (show splitLines [] = [⟨[], .final⟩] from rfl)
    simp only [List.append_nil] at whole
    simp [lineRangesFrom, whole, spans, Line.text, LineEnd.chars, walked, sized]
  | case2 rest ih =>
    have next := ih [] (pos + 2) (pos + 2) (by simp [Plain]) rfl
      (by simp [sized, utf8Size_return, utf8Size_feed]; omega)
    exact lineRangesFrom_closes plain .returnFeed rest (by decide) (by simp) walked rfl next
  | case3 rest notFeed ih =>
    have next := ih [] (pos + 1) (pos + 1) (by simp [Plain]) rfl
      (by simp [sized, utf8Size_return]; omega)
    exact lineRangesFrom_closes plain .carriageReturn rest (by decide)
      (fun _ => head?_ne_feed notFeed) walked (lineRangesFrom.eq_3 _ _ _ rest notFeed) next
  | case4 rest ih =>
    have next := ih [] (pos + 1) (pos + 1) (by simp [Plain]) rfl
      (by simp [sized, utf8Size_feed]; omega)
    exact lineRangesFrom_closes plain .feed rest (by decide) (by simp) walked rfl next
  | case5 c rest pairless notReturn notFeed ih =>
    have next := ih (pending ++ [c]) a (pos + c.utf8Size)
      (List.forall_mem_append.mpr ⟨plain, by simpa [Plain] using ⟨notReturn, notFeed⟩⟩)
      (by simp [walked]; omega) (by simp [sized]; omega)
    rw [lineRangesFrom.eq_5 _ _ _ c rest pairless notReturn notFeed, next]
    simp

theorem length_spans (a : Nat) (ts : List (List Char)) : (spans a ts).length = ts.length := by
  induction ts generalizing a with
  | nil => rfl
  | cons t ts ih => simp [spans, ih]

theorem getElem?_spans (a : Nat) (ts : List (List Char)) (i : Nat) :
    (spans a ts)[i]? = ts[i]?.map fun t =>
      ⟨a + utf8Len (ts.take i).flatten, a + utf8Len (ts.take i).flatten + utf8Len t⟩ := by
  induction ts generalizing a i with
  | nil => simp [spans]
  | cons t ts ih =>
    cases i with
    | zero => simp [spans]
    | succ i =>
      rw [spans, List.getElem?_cons_succ, ih, List.getElem?_cons_succ, List.take_succ_cons,
        List.flatten_cons, utf8Len_append, Nat.add_assoc]

theorem tiling_spans (a : Nat) {ts : List (List Char)} (nonempty : ts ≠ []) :
    Tiling (spans a ts) a (a + utf8Len ts.flatten) := by
  induction ts generalizing a with
  | nil => exact absurd rfl nonempty
  | cons t ts ih =>
    cases ts with
    | nil => simpa [spans] using Tiling.last (Nat.le_add_right a (utf8Len t))
    | cons t' ts =>
      have rest := ih (a + utf8Len t) (List.cons_ne_nil t' ts)
      rw [spans]
      refine Tiling.cons (Nat.le_add_right a (utf8Len t)) ?_
      simpa [Nat.add_assoc] using rest

theorem isValid_of_split {s : String} {p q : List Char} (split : s.toList = p ++ q) :
    String.Pos.Raw.IsValid s ⟨utf8Len p⟩ := by
  refine String.Pos.Raw.isValid_iff_exists_append.mpr ⟨String.ofList p, String.ofList q, ?_, ?_⟩
  · rw [← String.ofList_append, ← split, String.ofList_toList]
  · rw [String.rawEndPos_ofList]

theorem bounds_of_mem_spans {ts : List (List Char)} {r : ByteRange} (member : r ∈ spans 0 ts) :
    (∃ k, r.start = utf8Len (ts.take k).flatten) ∧ ∃ k, r.stop = utf8Len (ts.take k).flatten := by
  obtain ⟨i, found⟩ := List.mem_iff_getElem?.mp member
  rw [getElem?_spans] at found
  obtain ⟨t, text, rfl⟩ := Option.map_eq_some_iff.mp found
  refine ⟨⟨i, by simp⟩, ⟨i + 1, ?_⟩⟩
  rw [List.take_add_one, text]
  simp

theorem charsInRange_append (a b pos : Nat) (xs ys : List Char) :
    charsInRange a b pos (xs ++ ys) =
      charsInRange a b pos xs ++ charsInRange a b (pos + utf8Len xs) ys := by
  induction xs generalizing pos with
  | nil => simp [charsInRange]
  | cons x xs ih =>
    have shift : pos + x.utf8Size + utf8Len xs = pos + utf8Len (x :: xs) := by simp; omega
    simp only [List.cons_append, charsInRange, ih, shift]
    split <;> rfl

theorem charsInRange_outside {a b pos : Nat} {cs : List Char}
    (outside : b ≤ pos ∨ pos + utf8Len cs ≤ a) : charsInRange a b pos cs = [] := by
  induction cs generalizing pos with
  | nil => rfl
  | cons c cs ih =>
    have size := Char.utf8Size_pos c
    have later : b ≤ pos + c.utf8Size ∨ pos + c.utf8Size + utf8Len cs ≤ a := by
      simp only [utf8Len_cons] at outside
      omega
    have out : ¬ (a ≤ pos ∧ pos < b) := by
      simp only [utf8Len_cons] at outside
      omega
    rw [charsInRange, if_neg out, ih later]

theorem charsInRange_inside {a b pos : Nat} {cs : List Char} (start : a ≤ pos)
    (stop : pos + utf8Len cs ≤ b) : charsInRange a b pos cs = cs := by
  induction cs generalizing pos with
  | nil => rfl
  | cons c cs ih =>
    have size := Char.utf8Size_pos c
    simp only [utf8Len_cons] at stop
    rw [charsInRange, if_pos ⟨start, by omega⟩, ih (by omega) (by omega)]

theorem charsInRange_middle (pre mid post : List Char) :
    charsInRange (utf8Len pre) (utf8Len pre + utf8Len mid) 0 (pre ++ mid ++ post) = mid := by
  rw [charsInRange_append, charsInRange_append, charsInRange_outside (.inr (by simp)),
    charsInRange_inside (by simp) (by simp), charsInRange_outside (.inl (by simp))]
  simp

theorem trimLineEnds_text {l : Line} (plain : Plain l.body) : trimLineEnds l.text = l.body := by
  unfold trimLineEnds Line.text
  have ends : ∀ c ∈ l.ending.chars.reverse, (c = '\n' || c = '\r') = true := by
    intro c member
    cases ending : l.ending <;> simp_all [LineEnd.chars]
  have stops : (l.body.reverse.dropWhile fun c => c = '\n' || c = '\r') = l.body.reverse := by
    refine List.dropWhile_eq_self_iff.mpr fun nonempty => ?_
    obtain ⟨notReturn, notFeed⟩ := plain _ (List.mem_reverse.mp (List.getElem_mem nonempty))
    simp only [Bool.or_eq_true, decide_eq_true_eq, not_or]
    exact ⟨notFeed, notReturn⟩
  rw [List.reverse_append, List.dropWhile_append_of_pos ends, stops, List.reverse_reverse]

end Ranges

namespace Source

open String (utf8Len)

theorem lineRanges_eq_spans (src : Source) :
    src.lineRanges = spans 0 (src.lines.map Line.text) := by
  have walked : lineRangesFrom src.content.utf8ByteSize 0 0 src.content.toList =
      spans 0 ((splitLines ([] ++ src.content.toList)).map Line.text) :=
    lineRangesFrom_eq_spans [] 0 0 (by simp [Plain]) (by simp) (by simp [String.utf8Len_toList])
  unfold Source.lineRanges Source.lines
  simpa using walked

theorem flatten_lines (src : Source) : (src.lines.map Line.text).flatten = src.content.toList :=
  (splitsInto_splitLines _).flatten_text

theorem tiling_lineRanges (src : Source) : Tiling src.lineRanges 0 src.content.utf8ByteSize := by
  obtain ⟨l, ls, lines⟩ := exists_splitLines_eq_cons src.content.toList
  have nonempty : src.lines.map Line.text ≠ [] := by simp [lines, Source.lines]
  have tiles := tiling_spans 0 nonempty
  rw [flatten_lines, String.utf8Len_toList, Nat.zero_add] at tiles
  rwa [lineRanges_eq_spans]

theorem isValid_lineRanges (src : Source) {r : ByteRange} (member : r ∈ src.lineRanges) :
    String.Pos.Raw.IsValid src.content ⟨r.start⟩ ∧ String.Pos.Raw.IsValid src.content ⟨r.stop⟩ := by
  rw [lineRanges_eq_spans] at member
  have split (k : Nat) : src.content.toList = ((src.lines.map Line.text).take k).flatten ++
      ((src.lines.map Line.text).drop k).flatten := by
    rw [← List.flatten_append, List.take_append_drop, flatten_lines]
  obtain ⟨⟨k, start⟩, ⟨k', stop⟩⟩ := bounds_of_mem_spans member
  rw [start, stop]
  exact ⟨isValid_of_split (split k), isValid_of_split (split k')⟩

theorem line?_eq_slice (src : Source) (n : Nat) :
    src.line? (n + 1) =
      (src.lineRanges[n]?).map fun r => String.ofList (trimLineEnds (src.slice r)) := by
  rw [lineRanges_eq_spans, getElem?_spans, line?]
  cases found : src.lines[n]? with
  | none => simp [found]
  | some l =>
    have plain := (splitsInto_splitLines _).plain l (List.mem_of_getElem? found)
    have around : src.content.toList = ((src.lines.map Line.text).take n).flatten ++ l.text ++
        ((src.lines.map Line.text).drop (n + 1)).flatten := by
      have pieces := List.take_append_drop (n + 1) (src.lines.map Line.text)
      rw [List.take_add_one, List.getElem?_map, found, Option.map_some, Option.toList_some]
        at pieces
      calc src.content.toList
          = ((src.lines.map Line.text).take n ++ [l.text] ++
              (src.lines.map Line.text).drop (n + 1)).flatten := by rw [pieces, flatten_lines]
        _ = _ := by simp
    simp only [List.getElem?_map, found, Option.map_some, Source.slice, Nat.zero_add]
    rw [around, charsInRange_middle, trimLineEnds_text plain]

end Source

/-- How a source is cut into lines. Its byte ranges cover its bytes one after another from the
first to the last, each starts and stops between two characters, there is one for each line, and
the characters in the range of a line, less the line ends at their end, are the line. Read from the
left, the text splits into lines one way only; the source has one line more than that split has
line ends, its lines are the pieces between them, with no carriage return and no line feed in
them, and there is no line zero and no line past the last. -/
theorem source_lines_split (src : Source) :
    Tiling src.lineRanges 0 src.content.utf8ByteSize ∧
    (∀ r ∈ src.lineRanges,
      String.Pos.Raw.IsValid src.content ⟨r.start⟩ ∧ String.Pos.Raw.IsValid src.content ⟨r.stop⟩) ∧
    src.lineRanges.length = src.lineCount ∧
    (∀ n, src.line? (n + 1) =
      (src.lineRanges[n]?).map fun r => String.ofList (trimLineEnds (src.slice r))) ∧
    (∃ ls, SplitsInto src.content.toList ls) ∧
    (∀ ls, SplitsInto src.content.toList ls →
      src.lineCount = 1 + ls.countP (·.ending != .final) ∧
      ∀ i (h : i < ls.length), src.line? (i + 1) = some (String.ofList ls[i].body)) ∧
    (∀ n L, src.line? n = some L → ∀ c ∈ L.toList, c ≠ '\r' ∧ c ≠ '\n') ∧
    src.line? 0 = none ∧ src.line? (src.lineCount + 1) = none := by
  have split := splitsInto_splitLines src.content.toList
  refine ⟨src.tiling_lineRanges, fun r member => src.isValid_lineRanges member, ?_,
    src.line?_eq_slice, ⟨_, split⟩, fun ls other => ?_, ?_, rfl, ?_⟩
  · simp [Source.lineRanges_eq_spans, length_spans, Source.lineCount]
  · obtain rfl := other.eq_splitLines
    refine ⟨other.length_eq, fun i bound => ?_⟩
    simp [Source.line?, Source.lines, List.getElem?_eq_getElem bound]
  · rintro (_ | n) L found
    · cases found
    · simp only [Source.line?, Option.map_eq_some_iff] at found
      obtain ⟨l, member, rfl⟩ := found
      rw [String.toList_ofList]
      exact split.plain l (List.mem_of_getElem? member)
  · simp [Source.line?, Source.lineCount]

end TemplateLex
