import TemplateLex.Proofs.NumberText
import TemplateLex.Proofs.Drivers
import TemplateLex.Token.Render

/-! Writing tokens and reading them back. The text of each token the lexer returns scans as that
token again before a blank or the closing brace, except a number that is not finite, written as a
name; so a template of such tokens reads back as its tokens, at once or by iteration. -/
namespace TemplateLex

section Characters

/-- What may follow a token in a template: a blank or the closing brace. -/
def Ends (c : Char) : Prop := isBlank c = true ∨ c = '\x7d'

theorem Ends.mem {c : Char} (ends : Ends c) : c ∈ [' ', '\t', '\n', '\r', '\x7d'] := by
  rcases ends with blank | rfl
  · simp only [isBlank, Bool.or_eq_true, decide_eq_true_eq] at blank
    rcases blank with ((rfl | rfl) | rfl) | rfl <;> simp
  · simp

def operatorChars : List Char := ['!', '<', '=', '>', '&', '|', '^', '?', '+', '-', '*', '/', '%']

-- Facts about the characters of a closed list are checked by running the test over the list.
theorem operatorSpellings_chars : ∀ sp ∈ operatorSpellings, ∀ x ∈ sp, x ∈ operatorChars := by
  have checked : operatorSpellings.all (fun sp => sp.all operatorChars.contains) = true := by
    decide
  intro sp member x inSp
  have spChecked := List.all_eq_true.mp checked sp member
  exact List.elem_iff.mp (List.all_eq_true.mp spChecked x inSp)

theorem Ends.stops {c : Char} (ends : Ends c) :
    c.isDigit = false ∧ c ≠ '.' ∧ isNameChar c = false ∧ c ∉ operatorChars := by
  have checked : [' ', '\t', '\n', '\r', '\x7d'].all (fun x => !x.isDigit && x != '.' &&
      !isNameChar x && !operatorChars.contains x) = true := by
    decide
  have facts := List.all_eq_true.mp checked c ends.mem
  simp only [Bool.and_eq_true, Bool.not_eq_true', bne_iff_ne, ne_eq] at facts
  obtain ⟨⟨⟨notDigit, notPoint⟩, notName⟩, notOperator⟩ := facts
  refine ⟨notDigit, notPoint, notName, fun member => ?_⟩
  simp [member] at notOperator

theorem mem_operatorChars {c : Char} (start : isOperatorStart c = true) : c ∈ operatorChars := by
  obtain ⟨sp, member, head⟩ := List.any_eq_true.mp start
  have first : c ∈ sp.head? := by simpa using head
  exact operatorSpellings_chars sp member c (List.mem_of_mem_head? first)

theorem isDigit_of_isAlpha {c : Char} (alpha : c.isAlpha = true) : c.isDigit = false := by
  have letter : c.isAlpha = (decide (c.val ≥ 'A'.val ∧ c.val ≤ 'Z'.val) ||
      (c.val ≥ 'a'.val && c.val ≤ 'z'.val)) := rfl
  cases digit : c.isDigit with
  | false => rfl
  | true =>
    rw [letter] at alpha
    have code := Char.isDigit_iff_toNat.mp digit
    simp only [Bool.or_eq_true, Bool.and_eq_true, decide_eq_true_eq, ge_iff_le,
      UInt32.le_iff_toNat_le, Char.reduceVal, UInt32.reduceToNat] at alpha
    simp only [Char.toNat, Char.reduceVal, UInt32.reduceToNat] at code
    omega

theorem isDigit_of_isNameStart {c : Char} (start : isNameStart c = true) : c.isDigit = false := by
  simp only [isNameStart, Bool.or_eq_true, decide_eq_true_eq] at start
  rcases start with (alpha | rfl) | rfl
  · exact isDigit_of_isAlpha alpha
  · rfl
  · rfl

end Characters

section Dispatch

theorem scanToken_digit {c : Char} (digit : c.isDigit = true) (rest : List Char) :
    scanToken (c :: rest) = scanNumber (c :: rest) := by
  have notQuote : (c = '"' || c = '\'') = false := by
    simp only [Bool.or_eq_false_iff, decide_eq_false_iff_not]
    constructor <;> (rintro rfl; exact absurd digit (by decide))
  simp [scanToken, notQuote, digit]

theorem scanToken_nameStart {c : Char} (start : isNameStart c = true) (rest : List Char) :
    scanToken (c :: rest) = scanName (c :: rest) := by
  have notOperator : isOperatorStart c = false := by
    cases operator : isOperatorStart c with
    | false => rfl
    | true =>
      have checked : operatorChars.all (fun x => !isNameStart x) = true := by decide
      have other := List.all_eq_true.mp checked c (mem_operatorChars operator)
      rw [start] at other
      cases other
  have notQuote : (c = '"' || c = '\'') = false := by
    simp only [Bool.or_eq_false_iff, decide_eq_false_iff_not]
    constructor <;> (rintro rfl; exact absurd start (by decide))
  have apart : c ≠ '(' ∧ c ≠ ')' ∧ c ≠ '\x7b' ∧ c ≠ '\x7d' := by
    refine ⟨?_, ?_, ?_, ?_⟩ <;> (rintro rfl; exact absurd start (by decide))
  simp [scanToken, notQuote, isDigit_of_isNameStart start, apart, notOperator, start]

theorem scanToken_operatorChar {c : Char} (operator : c ∈ operatorChars) (rest : List Char) :
    scanToken (c :: rest) = scanOperator (c :: rest) := by
  have checked : operatorChars.all (fun x => !(x == '"' || x == '\'') && !x.isDigit &&
      !(x == '(' || x == ')' || x == '\x7b' || x == '\x7d') && isOperatorStart x) = true := by
    decide
  have facts := List.all_eq_true.mp checked c operator
  simp only [Bool.and_eq_true, Bool.not_eq_true', Bool.or_eq_false_iff, beq_eq_false_iff_ne,
    ne_eq] at facts
  obtain ⟨⟨⟨⟨notDouble, notSingle⟩, notDigit⟩, ⟨⟨⟨notOpen, notClose⟩, notLeft⟩, notRight⟩⟩,
    start⟩ := facts
  simp [scanToken, notDouble, notSingle, notDigit, notOpen, notClose, notLeft, notRight, start]

end Dispatch

section Scans

def isName (name : String) : Bool :=
  match name.toList with
  | [] => false
  | c :: cs => isNameStart c && cs.all isNameChar

theorem scanToken_name {name : String} (valid : isName name = true) {s : Char}
    (stop : isNameChar s = false) (rest : List Char) :
    scanToken (name.toList ++ s :: rest) = ⟨name.length, .ok (nameToken name)⟩ := by
  cases text : name.toList with
  | nil => simp [isName, text] at valid
  | cons c cs =>
    simp only [isName, text, Bool.and_eq_true, List.all_eq_true] at valid
    obtain ⟨start, chars⟩ := valid
    have all : ∀ x ∈ c :: cs, isNameChar x = true := by
      intro x member
      rcases List.mem_cons.mp member with rfl | inTail
      · simp [isNameChar, start]
      · exact chars x inTail
    have run : ((c :: cs) ++ s :: rest).takeWhile isNameChar = c :: cs := by
      rw [List.takeWhile_append_of_pos all]
      simp [stop]
    rw [List.cons_append, scanToken_nameStart start, ← List.cons_append]
    unfold scanName
    dsimp only
    rw [run, List.drop_left, endRun_follow (List.cons_ne_nil c cs), ← text, String.ofList_toList,
      String.length_toList]

theorem longestRun_operatorStep {w : List Char} {cands : List (List Char)}
    (reach : ∃ l ∈ cands, w <+: l) (chars : ∀ l ∈ cands, ∀ x ∈ l, x ∈ operatorChars)
    {s : Char} (other : s ∉ operatorChars) (rest : List Char) :
    longestRun operatorStep cands (w ++ s :: rest) = w := by
  induction w generalizing cands with
  | nil =>
    have empty : cands.filter (·.head? = some s) = [] := by
      rw [List.filter_eq_nil_iff]
      intro l member head
      exact other (chars l member s (List.mem_of_mem_head? (by simpa using head)))
    simp [longestRun, operatorStep, empty]
  | cons c w ih =>
    obtain ⟨l, member, t, rfl⟩ := reach
    have inNext : w ++ t ∈ (cands.filter (·.head? = some c)).map List.tail :=
      List.mem_map.mpr ⟨(c :: w) ++ t, List.mem_filter.mpr ⟨member, by simp⟩, rfl⟩
    have nextChars : ∀ l ∈ (cands.filter (·.head? = some c)).map List.tail,
        ∀ x ∈ l, x ∈ operatorChars := by
      intro l inMap x inL
      obtain ⟨l₀, inFilter, rfl⟩ := List.mem_map.mp inMap
      exact chars l₀ (List.mem_filter.mp inFilter).1 x (List.mem_of_mem_tail inL)
    have step : operatorStep cands c = some ((cands.filter (·.head? = some c)).map List.tail) := by
      have nonempty : ((cands.filter (·.head? = some c)).map List.tail).isEmpty = false :=
        List.isEmpty_eq_false_iff.mpr (List.ne_nil_of_mem inNext)
      simp only [operatorStep, nonempty, Bool.false_eq_true, if_false]
    rw [List.cons_append, longestRun, step]
    simp only
    rw [ih ⟨w ++ t, inNext, List.prefix_append w t⟩ nextChars]

theorem scanToken_spelling {sp : List Char} (member : sp ∈ operatorSpellings) {s : Char}
    (ends : Ends s) (rest : List Char) :
    scanToken (sp ++ s :: rest) = ⟨sp.length, operatorToken (String.ofList sp)⟩ := by
  have checked : operatorSpellings.all (fun sp => !sp.isEmpty) = true := by decide
  have nonempty : sp ≠ [] := by simpa using List.all_eq_true.mp checked sp member
  obtain ⟨c, tail, rfl⟩ := List.exists_cons_of_ne_nil nonempty
  have first : c ∈ operatorChars := operatorSpellings_chars _ member c List.mem_cons_self
  have run : operatorRun ((c :: tail) ++ s :: rest) = c :: tail :=
    longestRun_operatorStep ⟨_, member, List.prefix_refl _⟩ operatorSpellings_chars
      ends.stops.2.2.2 rest
  rw [List.cons_append, scanToken_operatorChar first, ← List.cons_append]
  unfold scanOperator
  dsimp only
  rw [run, List.drop_left, endRun_follow (List.cons_ne_nil c tail)]

theorem scanToken_infix (op : InfixOp) {s : Char} (ends : Ends s) (rest : List Char) :
    scanToken (op.spelling.toList ++ s :: rest) = ⟨op.spelling.length, .ok (.infixOp op)⟩ := by
  have member : op.spelling.toList ∈ operatorSpellings := by cases op <;> decide
  have token : operatorToken op.spelling = .ok (.infixOp op) := by cases op <;> rfl
  rw [scanToken_spelling member ends rest, String.ofList_toList, token, String.length_toList]

theorem scanToken_prefix (op : PrefixOp) {s : Char} (ends : Ends s) (rest : List Char) :
    scanToken (op.spelling.toList ++ s :: rest) = ⟨op.spelling.length, .ok (.prefixOp op)⟩ := by
  have member : op.spelling.toList ∈ operatorSpellings := by cases op; decide
  have token : operatorToken op.spelling = .ok (.prefixOp op) := by cases op; rfl
  rw [scanToken_spelling member ends rest, String.ofList_toList, token, String.length_toList]

theorem scanToken_encode (v : String) (after : List Char) :
    scanToken ((Quoted.encode v).toList ++ after) =
      ⟨(Quoted.encode v).length, .ok (.string v)⟩ := by
  have text : (Quoted.encode v).toList = '"' :: Quoted.encodeBody v.toList ++ ['"'] := by
    simp [Quoted.encode]
  have read := Quoted.decodeBody_encodeBody v.toList after
  rw [← String.length_toList, text]
  simp [scanToken, scanString, read, String.ofList_toList]

theorem scanToken_positional {v : Binary64} (sign : v.signBit = false) (finite : v.isFinite = true)
    {s : Char} (ends : Ends s) (rest : List Char) :
    scanToken (v.positional.toList ++ s :: rest) = ⟨v.positional.length, .ok (.number v)⟩ := by
  obtain ⟨literal, back⟩ := v.positional_reads_back sign finite
  obtain ⟨notDigit, notPoint, -, -⟩ := ends.stops
  obtain ⟨c, cs, split, digit⟩ := literal.head
  rw [split, List.cons_append, scanToken_digit digit, ← List.cons_append, ← split,
    scanNumber_literal literal notDigit notPoint, back, String.length_toList]

end Scans

/-- The tokens a lexer returns, as far as writing them back is concerned: numbers with the sign bit
clear, the keywords other than the period, and names that are no keyword. -/
def Token.Lexable : Token → Prop
  | .number v => v.signBit = false
  | .keyword k => k ≠ .period
  | .symbol name => isName name = true ∧ Keyword.ofSpelling? name = none
  | _ => True

instance : DecidablePred Token.Lexable
  | .openTemplate => inferInstanceAs (Decidable True)
  | .closeTemplate => inferInstanceAs (Decidable True)
  | .openParen => inferInstanceAs (Decidable True)
  | .closeParen => inferInstanceAs (Decidable True)
  | .number v => inferInstanceAs (Decidable (v.signBit = false))
  | .string _ => inferInstanceAs (Decidable True)
  | .keyword k => inferInstanceAs (Decidable (k ≠ .period))
  | .symbol name =>
    inferInstanceAs (Decidable (isName name = true ∧ Keyword.ofSpelling? name = none))
  | .prefixOp _ => inferInstanceAs (Decidable True)
  | .infixOp _ => inferInstanceAs (Decidable True)

/-- The token the text of a token reads back as: the token itself, except that a number that is not
finite is written `NaN` or `inf`, which reads as a name. -/
def Token.reread : Token → Token
  | .number v => if v.isFinite then .number v else if v.isNaN then .symbol "NaN" else .symbol "inf"
  | t => t

theorem Token.reread_eq_self {t : Token} :
    t.reread = t ↔ ∀ v, t = .number v → v.isFinite = true := by
  cases t with
  | number v =>
    cases finite : v.isFinite <;> cases nan : v.isNaN <;> simp [reread, finite, nan]
  | _ => simp [reread]

/-- The text of a token the lexer returns, followed by a blank or the closing brace, scans as the
token read back. -/
theorem scanToken_render {t : Token} (lexable : t.Lexable) {s : Char} (ends : Ends s)
    (rest : List Char) :
    scanToken (t.render.toList ++ s :: rest) = ⟨t.render.length, .ok t.reread⟩ := by
  have stop := ends.stops.2.2.1
  cases t with
  | openTemplate => rfl
  | closeTemplate => rfl
  | openParen => rfl
  | closeParen => rfl
  | number v =>
    cases finite : v.isFinite with
    | true =>
      have back : (Token.number v).reread = .number v := by simp [Token.reread, finite]
      rw [back]
      exact scanToken_positional lexable finite ends rest
    | false =>
      obtain ⟨word, text, back, named, plain⟩ : ∃ word : String,
          (Token.number v).render = word ∧ (Token.number v).reread = .symbol word ∧
            isName word = true ∧ nameToken word = .symbol word := by
        refine ⟨if v.isNaN then "NaN" else "inf", v.positional_of_not_finite finite lexable,
          by simp [Token.reread, finite, apply_ite Token.symbol], ?_⟩
        split_ifs <;> decide
      rw [text, back, scanToken_name named stop rest, plain]
  | string v => exact scanToken_encode v (s :: rest)
  | keyword k =>
    have named : isName k.spelling = true ∧ nameToken k.spelling = .keyword k := by
      cases k with
      | period => exact absurd rfl lexable
      | null => decide
      | undefined => decide
    rw [show (Token.keyword k).render = k.spelling from rfl, scanToken_name named.1 stop rest,
      named.2]
    rfl
  | symbol name =>
    obtain ⟨valid, notKeyword⟩ := lexable
    have token : nameToken name = .symbol name := by simp [nameToken, notKeyword]
    rw [show (Token.symbol name).render = name from rfl, scanToken_name valid stop rest, token]
    rfl
  | prefixOp op => exact scanToken_prefix op ends rest
  | infixOp op => exact scanToken_infix op ends rest

section Template

def spread : List (Token × List Char) → List Char
  | [] => []
  | (t, w) :: pieces => t.render.toList ++ w ++ spread pieces

theorem ends_after {w : List Char} {pieces : List (Token × List Char)} (blank : Blanks w)
    (spaced : pieces ≠ [] → w ≠ []) :
    ∃ s rest, w ++ spread pieces ++ ['\x7d'] = s :: rest ∧ Ends s := by
  cases w with
  | cons s w => exact ⟨s, _, rfl, .inl (blank s List.mem_cons_self)⟩
  | nil =>
    have done : pieces = [] := by
      by_contra more
      exact spaced more rfl
    subst done
    exact ⟨'\x7d', [], rfl, .inr rfl⟩

/-- Reading the tokens of a template after its opening brace gives each token read back, then the
closing brace, and no error. -/
theorem readAll_spread {pieces : List (Token × List Char)} (lexable : ∀ p ∈ pieces, p.1.Lexable)
    (blanks : ∀ p ∈ pieces, Blanks p.2) (spaced : ∀ p ∈ pieces.dropLast, p.2 ≠ [])
    {c : Cursor} {w₀ : List Char} (blank₀ : Blanks w₀)
    (rest : c.rest = w₀ ++ spread pieces ++ ['\x7d']) :
    c.readAll.error = none ∧
      c.readAll.tokens.map (·.value) = pieces.map (·.1.reread) ++ [.closeTemplate] := by
  -- the induction runs over the tokens, each read after the blanks before it
  induction pieces generalizing c w₀ with
  | nil =>
    have scan : (scanToken ['\x7d']).outcome = .ok .closeTemplate := rfl
    have taken : (scanToken ['\x7d']).taken = 1 := rfl
    have read := Cursor.read_of_scan_ok (by simpa [spread] using rest) blank₀ scan
    rw [Cursor.readAll_of_step_ok (by simp [rest]) ((Cursor.step_eq_read c).trans read),
      Cursor.readAll_of_rest_nil (by simp [rest, spread, taken])]
    simp
  | cons piece pieces ih =>
    obtain ⟨t, w⟩ := piece
    have lexableT : t.Lexable := lexable (t, w) List.mem_cons_self
    have blank : Blanks w := blanks (t, w) List.mem_cons_self
    have follows : pieces ≠ [] → w ≠ [] := fun more =>
      spaced (t, w) (by simp [List.dropLast_cons_of_ne_nil more])
    obtain ⟨s, after, split, ends⟩ := ends_after blank follows
    have scan := scanToken_render lexableT ends after
    have whole : c.rest = w₀ ++ (t.render.toList ++ s :: after) := by
      rw [rest, ← split]
      simp [spread]
    have read := Cursor.read_of_scan_ok whole blank₀ (by rw [scan])
    rw [scan] at read
    have next : (c.skip (w₀.length + t.render.length)).rest = w ++ spread pieces ++ ['\x7d'] := by
      rw [Cursor.rest_skip, whole, ← split, ← String.length_toList, ← List.append_assoc,
        List.drop_left' (by simp)]
    have tail : ∀ p ∈ pieces.dropLast, p.2 ≠ [] := by
      intro p member
      exact spaced p (by
        rw [List.dropLast_cons_of_ne_nil (List.ne_nil_of_mem (List.mem_of_mem_dropLast member))]
        exact List.mem_cons_of_mem _ member)
    obtain ⟨clean, tokens⟩ := ih (fun p member => lexable p (List.mem_cons_of_mem _ member))
      (fun p member => blanks p (List.mem_cons_of_mem _ member)) tail blank next
    rw [Cursor.readAll_of_step_ok (by simp [whole]) ((Cursor.step_eq_read c).trans read)]
    exact ⟨clean, by simp [tokens]⟩

end Template

/-- Tokens the lexer returns, laid out in a template: blanks after the opening brace, then each
token followed by its blanks, where the blanks between two tokens are not empty. -/
structure Layout where
  lead : List Char
  pieces : List (Token × List Char)
  lexable : ∀ p ∈ pieces, p.1.Lexable
  blank : Blanks lead
  blanks : ∀ p ∈ pieces, Blanks p.2
  spaced : ∀ p ∈ pieces.dropLast, p.2 ≠ []

def Layout.text (l : Layout) : String :=
  String.ofList ('\x7b' :: l.lead ++ spread l.pieces ++ ['\x7d'])

/-- Writing tokens the lexer returns into a template and reading the template back gives the
tokens between the braces and no error, read at once and by iteration alike. Each token comes back
as itself, except a number that is not finite, which comes back as the name inf or NaN; so the
tokens come back exactly when none is such a number. -/
theorem render_relex (l : Layout) :
    (tokenize l.text).error = none ∧
      (tokenize l.text).tokens.map (·.value) =
        .openTemplate :: l.pieces.map (·.1.reread) ++ [.closeTemplate] ∧
      ((tokenize l.text).tokens.map (·.value) =
          .openTemplate :: l.pieces.map (·.1) ++ [.closeTemplate] ↔
        ∀ p ∈ l.pieces, ∀ v, p.1 = .number v → v.isFinite = true) ∧
      ∀ n, ((Lexer.ofString l.text).session (List.replicate n .iterate)).map Prod.fst =
        (List.range n).map fun i => .item (((tokenize l.text).tokens.map .ok)[i]?) := by
  set c := Cursor.ofString l.text
  have start : tokenize l.text = c.readAll := rfl
  have text : c.rest = '\x7b' :: (l.lead ++ spread l.pieces ++ ['\x7d']) := by
    simp [c, Cursor.ofString, Cursor.ofList, Layout.text]
  have opening : c.step = (.ok ⟨.openTemplate, c.location⟩, c.skip 1) := by
    simp [Cursor.step, text]
  have inner := readAll_spread l.lexable l.blanks l.spaced l.blank (c := c.skip 1) (by simp [text])
  have whole : tokenize l.text =
      ⟨⟨.openTemplate, c.location⟩ :: (c.skip 1).readAll.tokens, (c.skip 1).readAll.error⟩ := by
    rw [start]
    exact Cursor.readAll_of_step_ok (by simp [text]) opening
  have clean : (tokenize l.text).error = none := by
    rw [whole]
    exact inner.1
  have tokens : (tokenize l.text).tokens.map (·.value) =
      .openTemplate :: l.pieces.map (·.1.reread) ++ [.closeTemplate] := by
    rw [whole]
    simp [inner.2]
  refine ⟨clean, tokens, ?_, fun n => ?_⟩
  · rw [tokens, List.append_cancel_right_eq, List.cons_inj_right, List.map_inj_left]
    exact forall₂_congr fun p _ => Token.reread_eq_self
  · have iterated := Lexer.session_iterate_fresh c n
    have lexer : Lexer.ofString l.text = { cursor := c } := rfl
    rw [← start] at iterated
    rw [lexer, iterated]
    simp [Tokenized.outcomes, Tokenized.errors, clean]

/-- A literal of 310 digits reads as the infinite number, whose text is inf; and the template of
inf reads back as a name, not as the number. -/
theorem infinite_number_rereads_as_name :
    (tokenize (String.ofList ('\x7b' :: '1' :: List.replicate 309 '0' ++ ['\x7d']))).tokens.map
        (·.value) = [.openTemplate, .number Binary64.infinity, .closeTemplate] ∧
      (Token.number Binary64.infinity).render = "inf" ∧
      (tokenize "\x7binf\x7d").tokens.map (·.value) =
        [.openTemplate, .symbol "inf", .closeTemplate] := by
  refine ⟨?_, by decide, by decide +kernel⟩
  -- read the characters themselves, not their encoding as a string
  rw [tokenize, Cursor.ofString, String.toList_ofList]
  decide +kernel

end TemplateLex
