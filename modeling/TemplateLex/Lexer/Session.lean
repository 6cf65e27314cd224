import TemplateLex.Lexer.Basic

/-! Sessions: a lexer or a cursor driven by a list of requests, each answered in turn, with the
cursor after each answer. -/
namespace TemplateLex

namespace Lexer

inductive Request where
  | next
  | peek
  | iterate
  | atEnd
deriving Repr

inductive Reply where
  | outcome (r : Outcome)
  | item (r : Option Outcome)
  | flag (b : Bool)
deriving Repr

def Reply.outcome? : Reply → Option Outcome
  | .outcome r => some r
  | .item r => r
  | .flag _ => none

def answer (l : Lexer) : Request → Reply × Lexer
  | .next => let (r, l) := l.next; (.outcome r, l)
  | .peek => let (r, l) := l.peek; (.outcome r, l)
  | .iterate => let (r, l) := l.iterate; (.item r, l)
  | .atEnd => (.flag l.atEnd, l)

/-- Answers the requests in turn, each answer with the cursor after it. -/
def session (l : Lexer) : List Request → List (Reply × Cursor)
  | [] => []
  | q :: qs =>
    let (r, l) := l.answer q
    (r, l.cursor) :: session l qs

end Lexer

namespace Cursor

inductive Request where
  | peek
  | next
  | atEnd
  | remaining
  | describe (kind : ErrorKind)
deriving Repr

inductive Reply where
  | char (c : Option Char)
  | flag (b : Bool)
  | count (n : Nat)
  | error (e : LexError)
deriving Repr

def answer (c : Cursor) : Request → Reply × Cursor
  | .peek => (.char c.peek?, c)
  | .next =>
    match c.next? with
    | some (ch, c') => (.char (some ch), c')
    | none => (.char none, c)
  | .atEnd => (.flag c.atEnd, c)
  | .remaining => (.count c.remaining, c)
  | .describe kind => (.error ⟨kind, c.location⟩, c)

def session (c : Cursor) : List Request → List (Reply × Cursor)
  | [] => []
  | q :: qs =>
    let (r, c) := c.answer q
    (r, c) :: session c qs

end Cursor

end TemplateLex
