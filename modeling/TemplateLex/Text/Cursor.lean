import TemplateLex.Text.Location

/-! The reading position in a source text. A cursor holds what is still to be read, how many
characters were read before it and the location of the next character. Reading never goes back, so
the characters read and those still to come always make up the whole text. -/
namespace TemplateLex

/-- The reading position in a text: the characters still to come, the number already read and the
location of the next one. -/
structure Cursor where
  rest : List Char
  consumed : Nat
  location : Location
deriving DecidableEq, Repr

namespace Cursor

def ofList (cs : List Char) : Cursor := ⟨cs, 0, .start⟩

def ofString (s : String) : Cursor := ofList s.toList

def peek? (c : Cursor) : Option Char := c.rest.head?

def atEnd (c : Cursor) : Bool := c.rest.isEmpty

def remaining (c : Cursor) : Nat := c.rest.length

def next? (c : Cursor) : Option (Char × Cursor) :=
  match c.rest with
  | [] => none
  | ch :: rest => some (ch, ⟨rest, c.consumed + 1, c.location.advance ch⟩)

/-- Reads the next `n` characters, or all that are left if fewer. -/
def skip (c : Cursor) (n : Nat) : Cursor :=
  ⟨c.rest.drop n, c.consumed + (c.rest.take n).length, c.location.advanceAll (c.rest.take n)⟩

@[simp] theorem rest_skip (c : Cursor) (n : Nat) : (c.skip n).rest = c.rest.drop n := rfl

@[simp] theorem skip_zero (c : Cursor) : c.skip 0 = c := by
  simp [skip]

end Cursor

end TemplateLex
