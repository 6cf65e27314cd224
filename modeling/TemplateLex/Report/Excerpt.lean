import TemplateLex.Report.Paint
import TemplateLex.Text.Lines
import TemplateLex.Decimal.Digits

/-! Source excerpts: a header, the line before the located one, the located line with its character
highlighted and a caret line with an optional hint, behind a gutter as wide as the line's number.
A tab is shown as four spaces. -/
namespace TemplateLex

/-- A location in a source to show, with the hint printed beside the caret. -/
structure Excerpt where
  source : Source
  location : Location
  help : Option String
deriving Repr

namespace Excerpt

def spaces (n : Nat) : String := String.ofList (List.replicate n ' ')

def bar : String := Paint.bold.apply (Paint.cyan.apply "┃")

/-- The gutter of `width` columns, holding a line number or nothing. -/
def gutter (width : Nat) : Option Nat → String
  | none => spaces width ++ " " ++ bar ++ " "
  | some n =>
    Paint.bold.apply (Paint.cyan.apply (toString n)) ++ spaces (width - digitCount n) ++ " " ++
      bar ++ " "

def charWidth (c : Char) : Nat := if c = '\t' then 4 else 1

def shown (c : Char) : String := if c = '\t' then "    " else c.toString

def highlight (s : String) : String :=
  Paint.underline.apply (Paint.bold.apply (Paint.red.apply s))

def showLine (body : List Char) (column : Option Nat) : String :=
  String.join <| (body.zipIdx 1).map fun (c, i) =>
    if column = some i then highlight (shown c) else shown c

/-- How far the caret stands from the start of the text: the widths of the characters before the
column, plus the columns past the end of the line. -/
def caretOffset (body : List Char) (column : Nat) : Nat :=
  (body.take (column - 1)).foldl (fun n c => n + charWidth c) 0 + (column - 1 - body.length)

def width (e : Excerpt) : Nat := digitCount e.location.line

/-- Line `n` of the source with its gutter, or nothing when the source has no such line. -/
def sourceLine (e : Excerpt) (n : Nat) (column : Option Nat) : String :=
  match e.source.line? n with
  | none => ""
  | some body => gutter e.width (some n) ++ showLine body.toList column ++ "\n"

def header (e : Excerpt) : String :=
  spaces e.width ++ Paint.bold.apply (Paint.cyan.apply "-->") ++ " " ++ e.source.name ++ ":" ++
    toString e.location.line ++ ":" ++ toString e.location.column ++ "\n"

/-- The caret line, with the hint after the caret. -/
def caretLine (e : Excerpt) : String :=
  let body := ((e.source.line? e.location.line).getD "").toList
  gutter e.width none ++ spaces (caretOffset body e.location.column) ++
    Paint.bold.apply (Paint.red.apply "^") ++
    (match e.help with
      | some h => " " ++ Paint.bold.apply "help" ++ ": " ++ h
      | none => "") ++ "\n"

def render (e : Excerpt) : String :=
  e.header ++ gutter e.width none ++ "\n" ++
    (if e.location.line > 1 then e.sourceLine (e.location.line - 1) none else "") ++
    e.sourceLine e.location.line (some e.location.column) ++ e.caretLine

example : caretOffset "\tab".toList 3 = 5 ∧ caretOffset "ab".toList 6 = 5 := by decide

end Excerpt

end TemplateLex
