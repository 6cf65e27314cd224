import TemplateLex.Token.Basic
import TemplateLex.Token.Quoted
import TemplateLex.Decimal.Positional

/-! Tokens written back as text that reads as the same token: punctuation as itself, a number with
the fewest digits that read back to its value, a string double-quoted with its escapes, keywords,
names and operators by their spelling. -/
namespace TemplateLex

/-- The text of a token. -/
def Token.render : Token → String
  | .openTemplate => "\x7b"
  | .closeTemplate => "\x7d"
  | .openParen => "("
  | .closeParen => ")"
  | .number v => v.positional
  | .string s => Quoted.encode s
  | .keyword k => k.spelling
  | .symbol name => name
  | .prefixOp op => op.spelling
  | .infixOp op => op.spelling

end TemplateLex
