import TemplateLex.Lexer.Step

/-! A lexer reads tokens on demand with one token of lookahead. Peeking reads the next outcome and
keeps it, so the following read hands out the same outcome without reading again. Iterating yields
outcomes until the input is used up; it stops for good after an error. Reading never goes back: the
characters of a failed scan stay read. -/
namespace TemplateLex

/-- A cursor, the outcome read ahead by a peek, and whether iteration has stopped for good. -/
structure Lexer where
  cursor : Cursor
  lookahead : Option Outcome := none
  halted : Bool := false
deriving Repr

namespace Lexer

def ofString (s : String) : Lexer := { cursor := Cursor.ofString s }

def next (l : Lexer) : Outcome × Lexer :=
  match l.lookahead with
  | some r => (r, { l with lookahead := none })
  | none =>
    let (r, c) := l.cursor.step
    (r, { l with cursor := c })

/-- The next outcome, kept for the following read. -/
def peek (l : Lexer) : Outcome × Lexer :=
  match l.lookahead with
  | some r => (r, l)
  | none =>
    let (r, c) := l.cursor.step
    (r, { l with cursor := c, lookahead := some r })

/-- Whether every character has been read; an outcome read ahead does not count. -/
def atEnd (l : Lexer) : Bool := l.cursor.atEnd

/-- The next item of the iteration: nothing once it has stopped, or once the input is used up
with nothing read ahead; it stops for good after yielding an error. -/
def iterate (l : Lexer) : Option Outcome × Lexer :=
  if l.halted || (l.lookahead.isNone && l.cursor.atEnd) then (none, l)
  else
    let (r, l) := l.next
    (some r, { l with halted := r matches .error _ })

end Lexer

end TemplateLex
