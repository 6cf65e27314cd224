/-! Places in a source text. A location names a line and a column, both counted from one, and the
column counts characters. Only a line feed opens a new line: a carriage return moves one column on
like any other character. -/
namespace TemplateLex

/-- A line and a column, both counted from one. -/
structure Location where
  line : Nat
  column : Nat
deriving DecidableEq, Repr, Inhabited

namespace Location

def start : Location := ⟨1, 1⟩

/-- The location after reading `c`: a line feed opens column one of the next line, every other
character moves one column on. -/
def advance (l : Location) (c : Char) : Location :=
  if c = '\n' then ⟨l.line + 1, 1⟩ else ⟨l.line, l.column + 1⟩

def advanceAll (l : Location) (cs : List Char) : Location := cs.foldl advance l

@[simp] theorem advanceAll_nil (l : Location) : l.advanceAll [] = l := rfl

@[simp] theorem advanceAll_cons (l : Location) (c : Char) (cs : List Char) :
    l.advanceAll (c :: cs) = (l.advance c).advanceAll cs := rfl

theorem advanceAll_append (l : Location) (xs ys : List Char) :
    l.advanceAll (xs ++ ys) = (l.advanceAll xs).advanceAll ys := by
  simp [advanceAll, List.foldl_append]

/-- The location after reading `cs` from the start, said without stepping through it: the line is
one more than the line feeds read, the column one more than the characters read since the last
line feed (or since the start). -/
def ofRead (cs : List Char) : Location :=
  ⟨cs.count '\n' + 1, (cs.reverse.takeWhile (· ≠ '\n')).length + 1⟩

@[simp] theorem ofRead_nil : ofRead [] = start := rfl

theorem ofRead_append_singleton (cs : List Char) (c : Char) :
    ofRead (cs ++ [c]) = (ofRead cs).advance c := by
  by_cases h : c = '\n'
  · subst h
    simp [ofRead, advance, List.count_append]
  · simp [ofRead, advance, List.count_append, h]

theorem ofRead_advanceAll (pre cs : List Char) :
    (ofRead pre).advanceAll cs = ofRead (pre ++ cs) := by
  induction cs generalizing pre with
  | nil => simp
  | cons c cs ih =>
    rw [advanceAll_cons, ← ofRead_append_singleton, ih]
    simp

theorem start_advanceAll (cs : List Char) : start.advanceAll cs = ofRead cs := by
  simpa using ofRead_advanceAll [] cs

/-- How a location reads inside messages: `line 3, column 7`. -/
def describe (l : Location) : String :=
  "line " ++ toString l.line ++ ", column " ++ toString l.column

end Location

/-- A value together with the location of its first character. -/
structure Located (α : Type) where
  value : α
  location : Location
deriving DecidableEq, Repr

end TemplateLex
