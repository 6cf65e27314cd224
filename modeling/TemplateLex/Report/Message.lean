import TemplateLex.Report.Paint

/-! Console messages: a bold label coloured by severity, a space, then the text in bold. -/
namespace TemplateLex

/-- How serious a message is. -/
inductive Severity where
  | error
  | info
  | warning
deriving DecidableEq, Repr

namespace Severity

def label : Severity → String
  | .error => "[error]:"
  | .info => "[info]:"
  | .warning => "[warning]:"

def paint : Severity → Paint
  | .error => .red
  | .info => .green
  | .warning => .yellow

end Severity

structure Message where
  severity : Severity
  text : String
deriving DecidableEq, Repr

def Message.render (m : Message) : String :=
  Paint.bold.apply (m.severity.paint.apply m.severity.label) ++ " " ++ Paint.bold.apply m.text

end TemplateLex
