import TemplateLex.Report.Excerpt

/-! Where the caret of an excerpt stands. Shown without escape sequences, every gutter is equally
wide, the located line highlights the character at the column and no other, and the caret stands
under it, or as many columns past the end of the line as the column is. -/
namespace TemplateLex

/-- What a console shows of painted text: an escape sequence, from the escape character up to and
including the next `m`, shows nothing; the flag tells whether an escape sequence is open. -/
def stripEscapes : Bool → List Char → List Char
  | _, [] => []
  | true, c :: rest => stripEscapes (c != 'm') rest
  | false, c :: rest => if c = '\x1b' then stripEscapes true rest else c :: stripEscapes false rest

/-- What a console shows of a text. -/
def Paint.visible (s : String) : List Char := stripEscapes false s.toList

section Escapes

theorem stripEscapes_plain {xs : List Char} (plain : '\x1b' ∉ xs) (ys : List Char) :
    stripEscapes false (xs ++ ys) = xs ++ stripEscapes false ys := by
  induction xs with
  | nil => rfl
  | cons x xs ih =>
    have notEscape : x ≠ '\x1b' := fun same => plain (same ▸ List.mem_cons_self)
    rw [List.cons_append, stripEscapes, if_neg notEscape,
      ih (fun member => plain (List.mem_cons_of_mem x member)), List.cons_append]

theorem stripEscapes_code (p : Paint) (ys : List Char) :
    stripEscapes false (p.code.toList ++ ys) = stripEscapes false ys := by
  cases p <;> rfl

theorem stripEscapes_reset (ys : List Char) :
    stripEscapes false (Paint.reset.toList ++ ys) = stripEscapes false ys := rfl

end Escapes

theorem digitCount_mono {m n : Nat} (le : m ≤ n) : digitCount m ≤ digitCount n := by
  have bound : n < 10 ^ digitCount n :=
    (Nat.length_toDigits_le_iff (by decide) Nat.length_toDigits_pos).mp (Nat.le_refl _)
  exact (Nat.length_toDigits_le_iff (by decide) Nat.length_toDigits_pos).mpr
    (Nat.lt_of_le_of_lt le bound)

namespace Excerpt

theorem escape_not_mem_toDigits (n : Nat) : '\x1b' ∉ Nat.toDigits 10 n := fun member =>
  absurd (Nat.isDigit_of_mem_toDigits (by decide) (by decide) member) (by decide)

@[simp] theorem length_spaces (n : Nat) : (spaces n).length = n := by
  simp [spaces]

@[simp] theorem length_shown (c : Char) : (shown c).length = charWidth c := by
  by_cases tab : c = '\t'
  · simp only [shown, charWidth, tab, if_true]
    rfl
  · simp [shown, charWidth, tab, Char.toString_eq_singleton]

section Gutter

theorem visible_gutter_none (w : Nat) :
    Paint.visible (gutter w none) = List.replicate w ' ' ++ [' ', '┃', ' '] := by
  simp [Paint.visible, gutter, bar, spaces, Paint.apply, stripEscapes_code, stripEscapes_reset,
    stripEscapes_plain, stripEscapes]

theorem visible_gutter_some (w n : Nat) :
    Paint.visible (gutter w (some n)) =
      Nat.toDigits 10 n ++ List.replicate (w - digitCount n) ' ' ++ [' ', '┃', ' '] := by
  simp [Paint.visible, gutter, bar, spaces, Paint.apply, stripEscapes_code, stripEscapes_reset,
    stripEscapes_plain, escape_not_mem_toDigits, stripEscapes]

theorem length_visible_gutter_none (w : Nat) : (Paint.visible (gutter w none)).length = w + 3 := by
  simp [visible_gutter_none]

theorem length_visible_gutter_some {w n : Nat} (fits : digitCount n ≤ w) :
    (Paint.visible (gutter w (some n))).length = w + 3 := by
  rw [visible_gutter_some]
  simp only [List.length_append, List.length_replicate, List.length_cons, List.length_nil]
  unfold digitCount at fits ⊢
  omega

end Gutter

section ShownLine

/-- The characters of a line from column `k` on, as shown, the one at `column` highlighted: the
line's text by recursion on its characters. -/
def shownFrom (column : Option Nat) : Nat → List Char → String
  | _, [] => ""
  | k, c :: cs =>
    (if column = some k then highlight (shown c) else shown c) ++ shownFrom column (k + 1) cs

theorem showLine_eq_shownFrom (body : List Char) (column : Option Nat) :
    showLine body column = shownFrom column 1 body := by
  unfold showLine
  generalize 1 = k
  induction body generalizing k with
  | nil => rfl
  | cons c cs ih => rw [List.zipIdx_cons, List.map_cons, String.join_cons, ih, shownFrom]

theorem shownFrom_append (column : Option Nat) (k : Nat) (xs ys : List Char) :
    shownFrom column k (xs ++ ys) = shownFrom column k xs ++ shownFrom column (k + xs.length) ys := by
  induction xs generalizing k with
  | nil => simp [shownFrom]
  | cons x xs ih =>
    rw [List.cons_append, shownFrom, shownFrom, ih, String.append_assoc, List.length_cons,
      Nat.add_right_comm, Nat.add_assoc]

theorem shownFrom_unmarked {column : Option Nat} {k : Nat} {cs : List Char}
    (apart : ∀ i, column = some i → i < k ∨ k + cs.length ≤ i) :
    shownFrom column k cs = String.join (cs.map shown) := by
  induction cs generalizing k with
  | nil => rfl
  | cons c cs ih =>
    have notHere : column ≠ some k := fun here => by
      have := apart k here
      simp only [List.length_cons] at this
      omega
    have later : ∀ i, column = some i → i < k + 1 ∨ k + 1 + cs.length ≤ i := fun i at_i => by
      have := apart i at_i
      simp only [List.length_cons] at this
      omega
    rw [shownFrom, if_neg notHere, ih later, List.map_cons, String.join_cons]

/-- With the column on a character of the line, that character is highlighted and every other
shown plainly. -/
theorem showLine_at (before : List Char) (c : Char) (after : List Char) :
    showLine (before ++ c :: after) (some (before.length + 1)) =
      String.join (before.map shown) ++ highlight (shown c) ++ String.join (after.map shown) := by
  have beforePlain :
      shownFrom (some (before.length + 1)) 1 before = String.join (before.map shown) :=
    shownFrom_unmarked fun i at_i => by
      cases at_i
      omega
  have afterPlain : shownFrom (some (before.length + 1)) (1 + before.length + 1) after =
      String.join (after.map shown) :=
    shownFrom_unmarked fun i at_i => by
      cases at_i
      omega
  rw [showLine_eq_shownFrom, shownFrom_append, beforePlain, shownFrom,
    if_pos (congrArg some (Nat.add_comm _ _)), afterPlain, String.append_assoc]

theorem showLine_past_end (body : List Char) {column : Nat} (past : body.length < column) :
    showLine body (some column) = String.join (body.map shown) := by
  rw [showLine_eq_shownFrom]
  exact shownFrom_unmarked fun i at_i => by
    cases at_i
    omega

theorem showLine_none (body : List Char) : showLine body none = String.join (body.map shown) := by
  rw [showLine_eq_shownFrom]
  exact shownFrom_unmarked fun i at_i => by cases at_i

end ShownLine

theorem foldl_charWidth (cs : List Char) (n : Nat) :
    cs.foldl (fun n c => n + charWidth c) n = n + (String.join (cs.map shown)).length := by
  induction cs generalizing n with
  | nil => simp
  | cons c cs ih =>
    rw [List.foldl_cons, ih, List.map_cons, String.join_cons, String.length_append, length_shown,
      Nat.add_assoc]

/-- The caret stands past the shown text of the characters before the column, and one more column
for each column past the end of the line. -/
theorem caretOffset_eq (body : List Char) (column : Nat) :
    caretOffset body column =
      (String.join ((body.take (column - 1)).map shown)).length + (column - 1 - body.length) := by
  rw [caretOffset, foldl_charWidth, Nat.zero_add]

section Render

variable {e : Excerpt}

theorem sourceLine_of_line {n : Nat} {L : String} (found : e.source.line? n = some L)
    (column : Option Nat) :
    e.sourceLine n column = gutter e.width (some n) ++ showLine L.toList column ++ "\n" := by
  simp only [sourceLine, found]

theorem sourceLine_unmarked (e : Excerpt) (n : Nat) :
    e.sourceLine n none = "" ∨ ∃ L, e.source.line? n = some L ∧
      e.sourceLine n none = gutter e.width (some n) ++ String.join (L.toList.map shown) ++ "\n" := by
  cases found : e.source.line? n with
  | none =>
    left
    simp only [sourceLine, found]
  | some L =>
    right
    exact ⟨L, rfl, by rw [sourceLine_of_line found, showLine_none]⟩

theorem caretLine_of_line {L : String} (found : e.source.line? e.location.line = some L) :
    ∃ tail, e.caretLine = gutter e.width none ++ spaces (caretOffset L.toList e.location.column) ++
      Paint.bold.apply (Paint.red.apply "^") ++ tail := by
  simp only [caretLine, found, Option.getD_some]
  exact ⟨_, String.append_assoc⟩

/-- With the located line in the source, the excerpt is its header, the empty gutter, the line
before, the located line and the caret line. -/
theorem render_of_line {L : String} (found : e.source.line? e.location.line = some L) :
    ∃ tail, e.render = e.header ++ gutter e.width none ++ "\n" ++
      (if e.location.line > 1 then e.sourceLine (e.location.line - 1) none else "") ++
      gutter e.width (some e.location.line) ++ showLine L.toList (some e.location.column) ++ "\n" ++
      gutter e.width none ++ spaces (caretOffset L.toList e.location.column) ++
      Paint.bold.apply (Paint.red.apply "^") ++ tail := by
  obtain ⟨tail, caret⟩ := caretLine_of_line found
  refine ⟨tail, ?_⟩
  rw [render, sourceLine_of_line found, caret]
  simp only [String.append_assoc]

theorem previous_unmarked (e : Excerpt) :
    (if e.location.line > 1 then e.sourceLine (e.location.line - 1) none else "") = "" ∨
      ∃ L, e.source.line? (e.location.line - 1) = some L ∧
        (if e.location.line > 1 then e.sourceLine (e.location.line - 1) none else "") =
          gutter e.width (some (e.location.line - 1)) ++ String.join (L.toList.map shown) ++ "\n" := by
  split
  · exact sourceLine_unmarked e _
  · exact Or.inl rfl

end Render

theorem exists_split_at_column {cs : List Char} {column : Nat} (first : 1 ≤ column)
    (within : column ≤ cs.length) :
    ∃ before c after, cs = before ++ c :: after ∧ before.length = column - 1 := by
  obtain ⟨c, after, rest⟩ : ∃ c after, cs.drop (column - 1) = c :: after :=
    List.exists_cons_of_ne_nil (by rw [Ne, List.drop_eq_nil_iff]; omega)
  exact ⟨cs.take (column - 1), c, after, by rw [← rest, List.take_append_drop],
    List.length_take_of_le (by omega)⟩

/-- The caret stands under the highlighted character. Shown without escape sequences, every gutter
of an excerpt is the located line's digits and three more columns wide, numbered or not, since no
line before the located one has more digits. With the located line in the source, the excerpt is
its header, the empty gutter, the line before with nothing highlighted (or nothing), the located
line and the caret line. With the column on a character of the line, that character alone is
highlighted, and the caret is padded by exactly the shown text before it, tabs four columns wide
in both; past the end of the line nothing is highlighted and the caret stands one column further
for each column past the end. -/
theorem caret_under_highlight (e : Excerpt) :
    (∀ n ≤ e.location.line, digitCount n ≤ digitCount e.location.line ∧
      (Paint.visible (gutter e.width (some n))).length = digitCount e.location.line + 3) ∧
    (Paint.visible (gutter e.width none)).length = digitCount e.location.line + 3 ∧
    ∀ L, e.source.line? e.location.line = some L →
      ∃ previous tail,
        (previous = "" ∨ ∃ L', e.source.line? (e.location.line - 1) = some L' ∧
          previous = gutter e.width (some (e.location.line - 1)) ++
            String.join (L'.toList.map shown) ++ "\n") ∧
        (1 ≤ e.location.column → e.location.column ≤ L.length →
          ∃ before c after, L.toList = before ++ c :: after ∧
            before.length = e.location.column - 1 ∧
            e.render = e.header ++ gutter e.width none ++ "\n" ++ previous ++
              gutter e.width (some e.location.line) ++ String.join (before.map shown) ++
              highlight (shown c) ++ String.join (after.map shown) ++ "\n" ++
              gutter e.width none ++ spaces (String.join (before.map shown)).length ++
              Paint.bold.apply (Paint.red.apply "^") ++ tail) ∧
        (L.length < e.location.column →
          e.render = e.header ++ gutter e.width none ++ "\n" ++ previous ++
            gutter e.width (some e.location.line) ++ String.join (L.toList.map shown) ++ "\n" ++
            gutter e.width none ++
            spaces ((String.join (L.toList.map shown)).length + (e.location.column - 1 - L.length)) ++
            Paint.bold.apply (Paint.red.apply "^") ++ tail) := by
  refine ⟨fun n le => ⟨digitCount_mono le, length_visible_gutter_some (digitCount_mono le)⟩,
    length_visible_gutter_none _, fun L found => ?_⟩
  obtain ⟨tail, rendered⟩ := render_of_line found
  refine ⟨_, tail, previous_unmarked e, fun first within => ?_, fun past => ?_⟩
  · obtain ⟨before, c, after, split, counted⟩ :=
      exists_split_at_column first (by rwa [String.length_toList])
    have offset :
        caretOffset L.toList e.location.column = (String.join (before.map shown)).length := by
      have beforeEnd : e.location.column - 1 ≤ L.toList.length := by
        rw [String.length_toList]
        omega
      rw [caretOffset_eq, Nat.sub_eq_zero_of_le beforeEnd, Nat.add_zero, split,
        List.take_left' counted]
    refine ⟨before, c, after, split, counted, ?_⟩
    rw [rendered, offset, split, show e.location.column = before.length + 1 by omega, showLine_at]
    simp only [String.append_assoc]
  · have whole : L.toList.take (e.location.column - 1) = L.toList :=
      List.take_of_length_le (by rw [String.length_toList]; omega)
    rw [rendered, showLine_past_end _ (by rwa [String.length_toList]), caretOffset_eq, whole,
      String.length_toList]

example : Paint.visible (caretLine ⟨⟨"template", "\"open"⟩, ⟨1, 6⟩, none⟩) =
    "  ┃      ^\n".toList := by
  decide

end Excerpt

end TemplateLex
