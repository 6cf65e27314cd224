import TemplateLex.Text.Location

/-! Source files and their lines. A line ends at a carriage return and a line feed, at a lone
carriage return or at a line feed, and the text after the last end is one more line; a source also
keeps where each line lies in its UTF-8 bytes. -/
namespace TemplateLex

/-- How a line ends. -/
inductive LineEnd where
  | feed
  | returnFeed
  /-- A carriage return that no line feed follows. -/
  | carriageReturn
  /-- The end of the text. -/
  | final
deriving DecidableEq, Repr

def LineEnd.chars : LineEnd → List Char
  | .feed => ['\n']
  | .returnFeed => ['\r', '\n']
  | .carriageReturn => ['\r']
  | .final => []

/-- One line of a text: what it holds and how it ends. -/
structure Line where
  body : List Char
  ending : LineEnd
deriving DecidableEq, Repr

def Line.text (l : Line) : List Char := l.body ++ l.ending.chars

/-- Puts a character that ends no line in front of the first line. -/
def Line.consFirst (c : Char) : List Line → List Line
  | [] => [⟨[c], .final⟩]
  | l :: ls => ⟨c :: l.body, l.ending⟩ :: ls

def splitLines : List Char → List Line
  | [] => [⟨[], .final⟩]
  | '\r' :: '\n' :: rest => ⟨[], .returnFeed⟩ :: splitLines rest
  | '\r' :: rest => ⟨[], .carriageReturn⟩ :: splitLines rest
  | '\n' :: rest => ⟨[], .feed⟩ :: splitLines rest
  | c :: rest => Line.consFirst c (splitLines rest)

example : splitLines "a\r\nb\rc\n".toList =
    [⟨['a'], .returnFeed⟩, ⟨['b'], .carriageReturn⟩, ⟨['c'], .feed⟩,
      ⟨[], .final⟩] := by
  decide

/-- A range of byte offsets into a text, from `start` up to but not including `stop`. -/
structure ByteRange where
  start : Nat
  stop : Nat
deriving DecidableEq, Repr

/-- Where the lines of a text lie in its UTF-8 bytes, each line with its end, found by walking the
characters with one character of lookahead: `lineRangesFrom size pos start cs` walks `cs`, whose
first character starts at byte `pos`, inside a line that started at byte `start`, in a text of
`size` bytes. The last line runs to the end of the text. -/
def lineRangesFrom (size pos start : Nat) : List Char → List ByteRange
  | [] => [⟨start, size⟩]
  | '\r' :: '\n' :: rest => ⟨start, pos + 2⟩ :: lineRangesFrom size (pos + 2) (pos + 2) rest
  | '\r' :: rest => ⟨start, pos + 1⟩ :: lineRangesFrom size (pos + 1) (pos + 1) rest
  | '\n' :: rest => ⟨start, pos + 1⟩ :: lineRangesFrom size (pos + 1) (pos + 1) rest
  | c :: rest => lineRangesFrom size (pos + c.utf8Size) start rest

/-- The characters whose first byte lies from `a` up to but not including `b`, the first character
of `cs` starting at byte `pos`: a slice of a text between two byte offsets. -/
def charsInRange (a b : Nat) : Nat → List Char → List Char
  | _, [] => []
  | pos, c :: rest =>
    if a ≤ pos ∧ pos < b then c :: charsInRange a b (pos + c.utf8Size) rest
    else charsInRange a b (pos + c.utf8Size) rest

def trimLineEnds (cs : List Char) : List Char :=
  (cs.reverse.dropWhile fun c => c = '\n' || c = '\r').reverse

/-- A named text, as diagnostics refer to it. -/
structure Source where
  name : String
  content : String
deriving DecidableEq, Repr

namespace Source

def anonymous (content : String) : Source := ⟨"<anonymous>", content⟩

def lines (s : Source) : List Line := splitLines s.content.toList

/-- How many lines the source has; never zero. -/
def lineCount (s : Source) : Nat := s.lines.length

def lineTexts (s : Source) : List String := s.lines.map fun l => String.ofList l.body

/-- The line with number `n`, counted from one, without its end. -/
def line? (s : Source) (n : Nat) : Option String :=
  match n with
  | 0 => none
  | n + 1 => (s.lines[n]?).map fun l => String.ofList l.body

def lineRanges (s : Source) : List ByteRange :=
  lineRangesFrom s.content.utf8ByteSize 0 0 s.content.toList

def slice (s : Source) (r : ByteRange) : List Char := charsInRange r.start r.stop 0 s.content.toList

example : (Source.mk "template" "\x7b a \x7d\n\x7b b \x7d\r\n!\r'x'").lineRanges =
    [⟨0, 6⟩, ⟨6, 13⟩, ⟨13, 15⟩, ⟨15, 18⟩] := by
  decide

end Source

end TemplateLex
