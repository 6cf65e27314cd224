/-! Quoted strings. Inside a quoted string a backslash introduces an escape: `n`, `r`, `t`, a
backslash, either quote and `0` stand for line feed, carriage return, tab, backslash, the quotes and
the null character. Reading stops at the quote that opened the string; writing always uses double
quotes and escapes exactly the characters of the table, so what is written reads back. -/
namespace TemplateLex

namespace Quoted

/-- The escapes, as pairs of the letter after the backslash and the character it stands for. -/
def escapes : List (Char × Char) :=
  [('n', '\n'), ('r', '\r'), ('t', '\t'), ('\\', '\\'), ('\'', '\''), ('"', '"'), ('0', '\x00')]

def unescape? (e : Char) : Option Char := (escapes.find? (·.1 = e)).map (·.2)

def escapeLetter? (c : Char) : Option Char := (escapes.find? (·.2 = c)).map (·.1)

/-- Why reading a quoted string stopped short. -/
inductive Failure where
  | unterminated
  | badEscape (letter : Char)
deriving DecidableEq, Repr

/-- Reads the body of a string that `close` ends, after its opening quote: the number of characters
read, the closing quote included, and the text or the reason it stopped. -/
def decodeBody (close : Char) : List Char → Nat × Except Failure (List Char)
  | [] => (0, .error .unterminated)
  | ['\\'] => (1, .error .unterminated)
  | '\\' :: e :: rest =>
    match unescape? e with
    | some c =>
      let (n, r) := decodeBody close rest
      (n + 2, r.map (c :: ·))
    | none => (2, .error (.badEscape e))
  | c :: rest =>
    if c = close then (1, .ok [])
    else
      let (n, r) := decodeBody close rest
      (n + 1, r.map (c :: ·))

/-- The body of a double-quoted string: each character of the table escaped, the others as they
are. -/
def encodeBody : List Char → List Char
  | [] => []
  | c :: rest =>
    match escapeLetter? c with
    | some e => '\\' :: e :: encodeBody rest
    | none => c :: encodeBody rest

def encode (s : String) : String := String.ofList ('"' :: encodeBody s.toList ++ ['"'])

example : encode "it's" = "\"it\\'s\"" := by decide
example : (decodeBody '"' "a\\tb\" x".toList).1 = 5 ∧
    (decodeBody '"' "a\\tb\" x".toList).2.toOption = some ['a', '\t', 'b'] := by decide

end Quoted

end TemplateLex
