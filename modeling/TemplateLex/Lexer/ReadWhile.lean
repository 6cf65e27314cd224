import TemplateLex.Lexer.Step

/-! Reading a run with a predicate that keeps a state of its own, as the lexer reads blanks, names,
numbers and operators. A run stops before the first character refused and fails once it has taken
the last character of the input; the next token is read by a dispatch on the character under it. -/
namespace TemplateLex

/-- A scan from the cursor `c`: its token, or its error located after what it read, and the cursor
after what it read. -/
def Scan.locate (sc : Scan) (c : Cursor) : Except LexError Token × Cursor :=
  (sc.outcome.mapError (⟨·, (c.skip sc.taken).location⟩), c.skip sc.taken)

@[simp] theorem Scan.locate_ok (n : Nat) (t : Token) (c : Cursor) :
    (Scan.mk n (.ok t)).locate c = (.ok t, c.skip n) := rfl

@[simp] theorem Scan.locate_error (n : Nat) (k : ErrorKind) (c : Cursor) :
    (Scan.mk n (.error k)).locate c = (.error ⟨k, (c.skip n).location⟩, c.skip n) := rfl

namespace Cursor

variable {σ : Type}

def endMatched (matched : List Char) (c : Cursor) : Except LexError (List Char) :=
  if matched.isEmpty then .error ⟨.unmatched, c.location⟩ else .ok matched

set_option linter.unusedVariables false in
/-- Takes characters while `call` accepts them, after `matched` was taken: the run read, or why
there is none; the cursor after it; and the state the predicate was left in. -/
def readWhileFrom (call : σ → Char → Bool × σ) (s : σ) (matched : List Char) (c : Cursor) :
    Except LexError (List Char) × Cursor × σ :=
  match h : c.next? with
  | none => (endMatched matched c, c, s)
  | some (ch, c') =>
    let (keep, s) := call s ch
    if keep then
      -- the character is taken before the end of the input is looked at
      if c'.atEnd then (.error ⟨.unexpectedEnd, c'.location⟩, c', s)
      else readWhileFrom call s (matched ++ [ch]) c'
    else (endMatched matched c, c, s)
termination_by c.remaining
decreasing_by
  simp only [next?] at h
  split at h
  · cases h
  · cases h
    simp_all [remaining]

def readWhile (call : σ → Char → Bool × σ) (s : σ) (c : Cursor) :
    Except LexError (List Char) × Cursor × σ :=
  c.readWhileFrom call s []

def classCall (p : Char → Bool) (u : Unit) (ch : Char) : Bool × Unit := (p ch, u)

/-- Reads a run and makes a token of it; a run that makes no token is an error located after it. -/
def readRun (call : σ → Char → Bool × σ) (s : σ) (make : List Char → Except ErrorKind Token)
    (c : Cursor) : Except LexError Token × Cursor :=
  let (matched, c, _) := c.readWhile call s
  match matched with
  | .error e => (.error e, c)
  | .ok run => ((make run).mapError (⟨·, c.location⟩), c)

def readName (c : Cursor) : Except LexError Token × Cursor :=
  c.readRun (classCall isNameChar) () fun run => .ok (nameToken (String.ofList run))

/-- What the number predicate keeps: whether a decimal point was taken, and whether a second one
was met. -/
structure NumberState where
  hasDot : Bool
  secondDot : Bool

/-- Takes digits and one decimal point; a second point is refused, and remembered. -/
def numberCall (st : NumberState) (ch : Char) : Bool × NumberState :=
  if ch = '.' then (!st.hasDot, ⟨true, st.hasDot⟩) else (ch.isDigit, st)

def readNumber (c : Cursor) : Except LexError Token × Cursor :=
  let (matched, c, st) := c.readWhile numberCall ⟨false, false⟩
  if st.secondDot then (.error ⟨.unexpectedDot, c.location⟩, c)
  else
    match matched with
    | .error e => (.error e, c)
    | .ok run => (.ok (.number (Decimal.ofLiteral run).toBinary64), c)

/-- What the operator predicate keeps: the spellings that agree with the characters taken, and how
many were taken. -/
structure OperatorState where
  remaining : List (List Char)
  index : Nat

/-- Keeps the spellings that have `ch` at the place it is read at, and takes `ch` if one is kept. -/
def operatorCall (st : OperatorState) (ch : Char) : Bool × OperatorState :=
  let remaining := st.remaining.filter (·[st.index]? = some ch)
  (!remaining.isEmpty, ⟨remaining, st.index + 1⟩)

def readOperator (c : Cursor) : Except LexError Token × Cursor :=
  c.readRun operatorCall ⟨operatorSpellings, 0⟩ fun run => operatorToken (String.ofList run)

def locatedAt (c : Cursor) (r : Except LexError Token × Cursor) : Outcome × Cursor :=
  (r.1.map (⟨·, c.location⟩), r.2)

/-- Reads the token that starts with the character `ch` under the cursor, `rest` after it,
dispatching on `ch`: a string, a number, a bracket, a brace, an operator or a name, each by its own
reader. -/
def readToken (c : Cursor) (ch : Char) (rest : List Char) : Outcome × Cursor :=
  if ch = '"' || ch = '\'' then c.locatedAt ((scanString ch rest).locate c)
  else if ch.isDigit then c.locatedAt c.readNumber
  else if ch = '(' then (.ok ⟨.openParen, c.location⟩, c.skip 1)
  else if ch = ')' then (.ok ⟨.closeParen, c.location⟩, c.skip 1)
  else if ch = '\x7b' then (.ok ⟨.openTemplate, c.location⟩, c.skip 1)
  else if ch = '\x7d' then (.ok ⟨.closeTemplate, c.location⟩, c.skip 1)
  else if isOperatorStart ch then c.locatedAt c.readOperator
  else if isNameStart ch then c.locatedAt c.readName
  else (.error ⟨.unknownToken, c.location⟩, c)

/-- Reads the next token: a brace under the cursor at once; otherwise the blank run first, and then
the token after it. -/
def readNext (c : Cursor) : Outcome × Cursor :=
  match c.peek? with
  | some '\x7b' => (.ok ⟨.openTemplate, c.location⟩, c.skip 1)
  | some '\x7d' => (.ok ⟨.closeTemplate, c.location⟩, c.skip 1)
  | _ =>
    let c := (c.readWhile (classCall isBlank) ()).2.1
    match c.rest with
    | [] => (.error ⟨.unexpectedEnd, c.location⟩, c)
    | ch :: rest => c.readToken ch rest

end Cursor

end TemplateLex
