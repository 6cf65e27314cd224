import TemplateLex.Token.Basic
import TemplateLex.Lexer.Error
import TemplateLex.Decimal.Nearest
import TemplateLex.Token.Quoted

/-! Scanning one token off the front of the input. Numbers, names and operators are runs, the
longest prefix of their class; a run that reads nothing is unmatched, and one that reads the last
character of the input fails. Strings are read to their closing quote and are no runs. -/
namespace TemplateLex

def isBlank (c : Char) : Bool := c = ' ' || c = '\t' || c = '\n' || c = '\r'

def isNameStart (c : Char) : Bool := c.isAlpha || c = '$' || c = '_'

def isNameChar (c : Char) : Bool := isNameStart c || c.isDigit

def isOperatorStart (c : Char) : Bool := operatorSpellings.any (·.head? = some c)

/-- What one scan made of the characters it read. -/
structure Scan where
  taken : Nat
  outcome : Except ErrorKind Token
deriving Repr

/-- The longest prefix that a reader of runs takes: from state `s`, `next s c` is the state after
taking `c`, or nothing where the run stops. A reader with one state is a character class. -/
def longestRun {σ : Type} (next : σ → Char → Option σ) (s : σ) : List Char → List Char
  | [] => []
  | c :: rest =>
    match next s c with
    | some s' => c :: longestRun next s' rest
    | none => []

theorem longestRun_prefix {σ : Type} (next : σ → Char → Option σ) (s : σ) (cs : List Char) :
    longestRun next s cs <+: cs := by
  induction cs generalizing s with
  | nil => simp [longestRun]
  | cons c rest ih =>
    unfold longestRun
    split
    · exact List.cons_prefix_cons.mpr ⟨rfl, ih _⟩
    · exact List.nil_prefix

/-- Reads digits and at most one decimal point; the state tells whether a point was taken. -/
def numberStep (dotSeen : Bool) (c : Char) : Option Bool :=
  if c.isDigit then some dotSeen
  else if c = '.' && !dotSeen then some true
  else none

/-- Reads the prefix of some spelling: the state is what is left of the spellings that go on with
the characters read so far. -/
def operatorStep (candidates : List (List Char)) (c : Char) : Option (List (List Char)) :=
  let next := (candidates.filter (·.head? = some c)).map List.tail
  if next.isEmpty then none else some next

def numberRun (cs : List Char) : List Char := longestRun numberStep false cs

def operatorRun (cs : List Char) : List Char := longestRun operatorStep operatorSpellings cs

/-- The end of a run scan that read `run` and stopped before `after`. -/
def endRun (run after : List Char) (make : Except ErrorKind Token) : Scan :=
  if run.isEmpty then ⟨0, .error .unmatched⟩
  else if after.isEmpty then ⟨run.length, .error .unexpectedEnd⟩
  else ⟨run.length, make⟩

def digitsValue (cs : List Char) : Nat := cs.foldl (fun n c => 10 * n + (c.toNat - '0'.toNat)) 0

def Decimal.ofLiteral (run : List Char) : Decimal :=
  let whole := run.takeWhile (· ≠ '.')
  let fraction := (run.dropWhile (· ≠ '.')).drop 1
  ⟨digitsValue (whole ++ fraction), -(fraction.length : Int)⟩

def scanNumber (cs : List Char) : Scan :=
  let run := numberRun cs
  let after := cs.drop run.length
  endRun run after <|
    if after.head? = some '.' then .error .unexpectedDot
    else .ok (.number (Decimal.ofLiteral run).toBinary64)

def nameToken (name : String) : Token :=
  match Keyword.ofSpelling? name with
  | some k => .keyword k
  | none => .symbol name

def scanName (cs : List Char) : Scan :=
  let run := cs.takeWhile isNameChar
  endRun run (cs.drop run.length) (.ok (nameToken (String.ofList run)))

/-- The operator spelled `text`, an infix one first. -/
def operatorToken (text : String) : Except ErrorKind Token :=
  match InfixOp.ofSpelling? text with
  | some op => .ok (.infixOp op)
  | none =>
    match PrefixOp.ofSpelling? text with
    | some op => .ok (.prefixOp op)
    | none => .error (.unknownOperator text)

def scanOperator (cs : List Char) : Scan :=
  let run := operatorRun cs
  endRun run (cs.drop run.length) (operatorToken (String.ofList run))

/-- Scans a string after its opening quote `quote`; the quote counts as read. -/
def scanString (quote : Char) (rest : List Char) : Scan :=
  let (n, body) := Quoted.decodeBody quote rest
  ⟨n + 1, match body with
    | .ok text => .ok (.string (String.ofList text))
    | .error .unterminated => .error .unexpectedEnd
    | .error (.badEscape e) => .error (.invalidEscape e)⟩

/-- Scans the token that starts the input, which is not empty and starts with no blank. -/
def scanToken : List Char → Scan
  | [] => ⟨0, .error .unexpectedEnd⟩
  | c :: rest =>
    if c = '"' || c = '\'' then scanString c rest
    else if c.isDigit then scanNumber (c :: rest)
    else if c = '(' then ⟨1, .ok .openParen⟩
    else if c = ')' then ⟨1, .ok .closeParen⟩
    else if c = '\x7b' then ⟨1, .ok .openTemplate⟩
    else if c = '\x7d' then ⟨1, .ok .closeTemplate⟩
    else if isOperatorStart c then scanOperator (c :: rest)
    else if isNameStart c then scanName (c :: rest)
    else ⟨0, .error .unknownToken⟩

theorem endRun_taken_pos {run after : List Char} {make : Except ErrorKind Token} {t : Token}
    (h : (endRun run after make).outcome = .ok t) : 0 < (endRun run after make).taken := by
  cases run with
  | nil => simp [endRun] at h
  | cons x xs => simp only [endRun, List.isEmpty_cons, Bool.false_eq_true, if_false]; split <;> simp

theorem taken_pos_of_outcome_ok {cs : List Char} {t : Token}
    (h : (scanToken cs).outcome = .ok t) : 0 < (scanToken cs).taken := by
  cases cs with
  | nil => simp [scanToken] at h
  | cons c rest =>
    simp only [scanToken] at h ⊢
    split
    · simp [scanString]
    rename_i h1; rw [if_neg h1] at h
    split
    · rename_i h2; rw [if_pos h2] at h; exact endRun_taken_pos h
    rename_i h2; rw [if_neg h2] at h
    split
    · simp
    rename_i h3; rw [if_neg h3] at h
    split
    · simp
    rename_i h4; rw [if_neg h4] at h
    split
    · simp
    rename_i h5; rw [if_neg h5] at h
    split
    · simp
    rename_i h6; rw [if_neg h6] at h
    split
    · rename_i h7; rw [if_pos h7] at h; exact endRun_taken_pos h
    rename_i h7; rw [if_neg h7] at h
    split
    · rename_i h8; rw [if_pos h8] at h; exact endRun_taken_pos h
    rename_i h8; rw [if_neg h8] at h
    simp at h

example : (scanOperator "<== ".toList).taken = 2 ∧
    (scanOperator "<== ".toList).outcome.toOption = some (.infixOp .lessOrEquals) := by decide
example : (scanNumber "1.2.3".toList).taken = 3 ∧
    (match (scanNumber "1.2.3".toList).outcome with
      | .error k => decide (k = .unexpectedDot)
      | .ok _ => false) = true := by decide

end TemplateLex
