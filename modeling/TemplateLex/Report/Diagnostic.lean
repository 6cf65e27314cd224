import TemplateLex.Lexer.Error
import TemplateLex.Report.Message
import TemplateLex.Report.Excerpt

/-! Diagnostics of lexical errors: an error message naming the cause, then an excerpt of the source
at the error's location, with the cause's hint beside the caret. -/
namespace TemplateLex

/-- The diagnostic of an error in a source. -/
def LexError.diagnostic (e : LexError) (src : Source) : String :=
  (Message.mk .error e.kind.describe).render ++ "\n" ++
    (Excerpt.mk src e.location e.kind.help?).render

end TemplateLex
