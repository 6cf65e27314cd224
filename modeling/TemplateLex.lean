import TemplateLex.Text.Location
import TemplateLex.Text.Cursor
import TemplateLex.Text.Lines
import TemplateLex.Decimal.Digits
import TemplateLex.Decimal.Binary64
import TemplateLex.Decimal.Nearest
import TemplateLex.Decimal.Shortest
import TemplateLex.Decimal.Positional
import TemplateLex.Token.Basic
import TemplateLex.Token.Quoted
import TemplateLex.Token.Render
import TemplateLex.Lexer.Error
import TemplateLex.Lexer.Scan
import TemplateLex.Lexer.Step
import TemplateLex.Lexer.Basic
import TemplateLex.Lexer.Session
import TemplateLex.Lexer.Tokenize
import TemplateLex.Lexer.ReadWhile
import TemplateLex.Report.Paint
import TemplateLex.Report.Message
import TemplateLex.Report.Excerpt
import TemplateLex.Report.Diagnostic
import TemplateLex.Proofs.CursorState
import TemplateLex.Proofs.Drivers
import TemplateLex.Proofs.Composition
import TemplateLex.Proofs.Lookahead
import TemplateLex.Proofs.NumberText
import TemplateLex.Proofs.RoundTrip
import TemplateLex.Proofs.OperatorScan
import TemplateLex.Proofs.StringScan
import TemplateLex.Proofs.NearestEven
import TemplateLex.Proofs.NumberScan
import TemplateLex.Proofs.LineColumns
import TemplateLex.Proofs.UnusedVariants
import TemplateLex.Proofs.Progress
import TemplateLex.Proofs.LineSplit
import TemplateLex.Proofs.CaretAlignment
import TemplateLex.Proofs.ReadWhile
import TemplateLex.Proofs.RunReaders
