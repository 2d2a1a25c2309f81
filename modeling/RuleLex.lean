import RuleLex.Json.Printer
import RuleLex.Json.Reader
import RuleLex.Lexer.Run
import RuleLex.Log.Service
import RuleLex.Log.Window
import RuleLex.Session
import RuleLex.Stored.Settings
import RuleLex.Stored.Token
import RuleLex.Token.Stream
import RuleLex.Proofs.Comment
import RuleLex.Proofs.Pattern.Extent
import RuleLex.Proofs.Pattern.Grammar
import RuleLex.Proofs.Pattern.Reader
import RuleLex.Proofs.Lexer.Spelling
import RuleLex.Proofs.Lexer.Lossless
import RuleLex.Proofs.Lexer.Consume
import RuleLex.Proofs.Lexer.Restart
import RuleLex.Proofs.Source.Position
import RuleLex.Proofs.Lexer.Outcome
import RuleLex.Proofs.Pattern.Agreement
import RuleLex.Proofs.Lexer.HexString
import RuleLex.Proofs.Lexer.Munch
import RuleLex.Proofs.Lexer.Dispatch
import RuleLex.Proofs.Lexer.Places
import RuleLex.Proofs.Lexer.Alike
import RuleLex.Proofs.Lexer.Service
import RuleLex.Proofs.Lexer.Logged
import RuleLex.Proofs.Lexer.Observation
import RuleLex.Proofs.Lexer.Mode
import RuleLex.Proofs.Lexer.Scan
import RuleLex.Proofs.Lexer.Course
import RuleLex.Proofs.Lexer.Lookahead
import RuleLex.Proofs.Lexer.Lines
import RuleLex.Proofs.Lexer.Respaced
import RuleLex.Proofs.Utf8
import RuleLex.Proofs.Lexer.Reprint
import RuleLex.Proofs.Lexer.Requests
import RuleLex.Proofs.Lexer.Bounds
import RuleLex.Proofs.Lexer.Counts
import RuleLex.Proofs.Lexer.Reported
import RuleLex.Proofs.Checked.Basic
import RuleLex.Proofs.Checked.Lexer
import RuleLex.Proofs.Checked.Pattern
import RuleLex.Proofs.Checked.Cursor
import RuleLex.Proofs.Checked.Scan
import RuleLex.Proofs.Checked.Safety
import RuleLex.Proofs.Checked.Mode
import RuleLex.Proofs.Lexer.NumberValue
import RuleLex.Proofs.Log.Window
import RuleLex.Proofs.Session
import RuleLex.Proofs.Token.Stream
import RuleLex.Proofs.Lexer.Content
import RuleLex.Proofs.Lexer.Literal
import RuleLex.Proofs.Lexer.Approach
import RuleLex.Proofs.Lexer.ErrorLine
import RuleLex.Proofs.Lexer.Stuck
import RuleLex.Proofs.Lexer.ErrorSpan
import RuleLex.Proofs.Lexer.Rejected
import RuleLex.Proofs.Pattern.Choice
import RuleLex.Proofs.Pattern.Culprit
import RuleLex.Proofs.Comment.Skipped
import RuleLex.Proofs.Source.Span
import RuleLex.Proofs.Token.Covering
import RuleLex.Proofs.Text.Cut
import RuleLex.Proofs.Log.Event
import RuleLex.Proofs.Json.RoundTrip
import RuleLex.Proofs.Log.Line
import RuleLex.Proofs.Lexer.Message
import RuleLex.Proofs.Limits
import RuleLex.Proofs.Stored.Modifiers
import RuleLex.Proofs.Stored.Token
import RuleLex.Proofs.Json.Members
