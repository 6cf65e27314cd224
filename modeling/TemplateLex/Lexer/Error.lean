import TemplateLex.Text.Location

/-! Lexical errors. An error names its cause and the location of the cursor when reading failed,
which is not the start of the failed token. Each cause has one message and, for most, a hint. -/
namespace TemplateLex

/-- Why a scan failed. -/
inductive ErrorKind where
  /-- The input ended inside a token, or right after the blanks before one. -/
  | unexpectedEnd
  /-- A run of characters of one class was empty. -/
  | unmatched
  | unexpectedDot
  | unknownOperator (text : String)
  | unknownToken
  /-- A backslash in a string was followed by this character, which is no escape. -/
  | invalidEscape (letter : Char)
deriving DecidableEq, Repr

namespace ErrorKind

def describe : ErrorKind → String
  | .unexpectedEnd => "Unexpected EOF"
  | .unmatched => "Unmatched token"
  | .unexpectedDot => "Unexpected ."
  | .unknownOperator text => "Unknown operator \"" ++ text ++ "\""
  | .unknownToken => "Unknown token"
  | .invalidEscape letter => "Invalid escape \"\\" ++ letter.toString ++ "\""

/-- The hint shown under the caret of a diagnostic. -/
def help? : ErrorKind → Option String
  | .unexpectedEnd => some "every token must be followed by another token or a closing `\x7d`"
  | .unmatched | .unknownOperator _ => none
  | .unexpectedDot => some "a number may contain at most one decimal point"
  | .unknownToken => some "this character cannot start a token"
  | .invalidEscape _ => some "recognized escapes are \\n, \\r, \\t, \\\\, \\', \\\" and \\0"

end ErrorKind

/-- A lexical error: its cause and where the cursor stood. -/
structure LexError where
  kind : ErrorKind
  location : Location
deriving DecidableEq, Repr

def LexError.describe (e : LexError) : String :=
  e.kind.describe ++ " at " ++ e.location.describe

end TemplateLex
