/-! Console paint. A style or a colour is an escape code written before the text, and every painted
span ends with its own reset, so painting a painted text nests the codes and ends with two
resets. -/
namespace TemplateLex

/-- A console style or foreground colour. -/
inductive Paint where
  | bold
  | underline
  | red
  | green
  | yellow
  | blue
  | cyan
deriving DecidableEq, Repr

namespace Paint

def code : Paint → String
  | .bold => "\x1b[1m"
  | .underline => "\x1b[4m"
  | .red => "\x1b[31m"
  | .green => "\x1b[32m"
  | .yellow => "\x1b[33m"
  | .blue => "\x1b[34m"
  | .cyan => "\x1b[36m"

/-- The escape code that ends every painted span. -/
def reset : String := "\x1b[0m"

def apply (p : Paint) (s : String) : String := p.code ++ s ++ reset

example : bold.apply (red.apply "[error]:") = "\x1b[1m\x1b[31m[error]:\x1b[0m\x1b[0m" := by
  decide

end Paint

end TemplateLex
