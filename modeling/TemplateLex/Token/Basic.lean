import TemplateLex.Decimal.Binary64

/-! The tokens of template expressions: braces around the expression, parentheses, numbers, quoted
strings, keywords, names, one prefix operator and eighteen infix operators. Each keyword and
operator has one spelling; reading a spelling back goes through the table of all of them. -/
namespace TemplateLex

/-- The reserved words. The period is a keyword of the table, though no scan produces it. -/
inductive Keyword where
  | period
  | null
  | undefined
deriving DecidableEq, Repr

inductive PrefixOp where
  | not
deriving DecidableEq, Repr

/-- The infix operators; bitwise operators are not part of the language. -/
inductive InfixOp where
  | less
  | lessOrEquals
  | softEquals
  | hardEquals
  | greaterOrEquals
  | greater
  | softNotEquals
  | hardNotEquals
  | and
  | or
  | xor
  | nullCoalescing
  | add
  | subtract
  | multiply
  | exponent
  | divide
  | modulo
deriving DecidableEq, Repr

/-- Why a text does not parse: it spells no keyword, or no operator of the table asked. -/
inductive ParseError where
  | keyword
  | operator
deriving DecidableEq, Repr

def ParseError.describe : ParseError → String
  | .keyword => "invalid string representation of keyword."
  | .operator => "invalid string representation of operator."

def ParseError.orFound {α : Type} (e : ParseError) : Option α → Except ParseError α
  | some a => .ok a
  | none => .error e

namespace Keyword

def all : List Keyword := [.period, .null, .undefined]

def spelling : Keyword → String
  | .period => "."
  | .null => "null"
  | .undefined => "undefined"

def ofSpelling? (s : String) : Option Keyword := all.find? (·.spelling = s)

def parse (s : String) : Except ParseError Keyword := ParseError.keyword.orFound (ofSpelling? s)

end Keyword

namespace PrefixOp

def all : List PrefixOp := [.not]

def spelling : PrefixOp → String
  | .not => "!"

def ofSpelling? (s : String) : Option PrefixOp := all.find? (·.spelling = s)

def parse (s : String) : Except ParseError PrefixOp := ParseError.operator.orFound (ofSpelling? s)

end PrefixOp

namespace InfixOp

def all : List InfixOp :=
  [.less, .lessOrEquals, .softEquals, .hardEquals, .greaterOrEquals, .greater, .softNotEquals,
    .hardNotEquals, .and, .or, .xor, .nullCoalescing, .add, .subtract, .multiply, .exponent,
    .divide, .modulo]

def spelling : InfixOp → String
  | .less => "<"
  | .lessOrEquals => "<="
  | .softEquals => "=="
  | .hardEquals => "==="
  | .greaterOrEquals => ">="
  | .greater => ">"
  | .softNotEquals => "!="
  | .hardNotEquals => "!=="
  | .and => "&&"
  | .or => "||"
  | .xor => "^"
  | .nullCoalescing => "??"
  | .add => "+"
  | .subtract => "-"
  | .multiply => "*"
  | .exponent => "**"
  | .divide => "/"
  | .modulo => "%"

def ofSpelling? (s : String) : Option InfixOp := all.find? (·.spelling = s)

def parse (s : String) : Except ParseError InfixOp := ParseError.operator.orFound (ofSpelling? s)

end InfixOp

/-- The spelling of every operator, prefix operators first. -/
def operatorSpellings : List (List Char) :=
  PrefixOp.all.map (·.spelling.toList) ++ InfixOp.all.map (·.spelling.toList)

/-- A token, apart from where it stands. -/
inductive Token where
  | openTemplate
  | closeTemplate
  | openParen
  | closeParen
  /-- A number literal and its value. -/
  | number (value : Binary64)
  /-- A quoted string and its text, escapes resolved. -/
  | string (value : String)
  | keyword (word : Keyword)
  /-- A name that is not a keyword. -/
  | symbol (name : String)
  | prefixOp (op : PrefixOp)
  | infixOp (op : InfixOp)
deriving DecidableEq, Repr

example : InfixOp.ofSpelling? "!==" = some .hardNotEquals := by decide
example : Keyword.ofSpelling? "Null" = none := by decide

end TemplateLex
