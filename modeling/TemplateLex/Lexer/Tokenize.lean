import TemplateLex.Lexer.Step

/-! Reading a whole text: tokens are read until the input is used up, and the first error ends
the reading. The result is every token read before the error, and the error if there was one. -/
namespace TemplateLex

/-- The tokens of a text and the error that ended the reading, if any. -/
structure Tokenized where
  tokens : List (Located Token)
  error : Option LexError
deriving Repr

namespace Tokenized

/-- The errors reported: none or one. -/
def errors (t : Tokenized) : List LexError := t.error.toList

def errorCount (t : Tokenized) : Nat := t.errors.length

end Tokenized

set_option linter.unusedVariables false in
/-- Reads tokens from the cursor until the input is used up or an error occurs. -/
def Cursor.readAll (c : Cursor) : Tokenized :=
  if c.rest = [] then ⟨[], none⟩
  else
    match hstep : c.step with
    | (.ok t, c') =>
      let r := c'.readAll
      ⟨t :: r.tokens, r.error⟩
    | (.error e, _) => ⟨[], some e⟩
termination_by c.rest.length
decreasing_by exact Cursor.length_rest_step_lt hstep

def tokenize (s : String) : Tokenized := (Cursor.ofString s).readAll

end TemplateLex
