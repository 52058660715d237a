import RubyTokens.Conversion.Run
import RubyTokens.Token.Listing
import RubyTokens.Lexeme.Dump
import RubyTokens.Command.Survey
import RubyTokens.Main
import RubyTokens.Proofs.Conversion.Walk
import RubyTokens.Proofs.Conversion.States
import RubyTokens.Proofs.Conversion.Circle
import RubyTokens.Proofs.Conversion.Ending
import RubyTokens.Proofs.Heredoc.Fence
import RubyTokens.Proofs.Heredoc.Passage
import RubyTokens.Proofs.Heredoc.Order
import RubyTokens.Proofs.Heredoc.Nesting
import RubyTokens.Proofs.Source.Slice
import RubyTokens.Proofs.Source.Tiling
import RubyTokens.Proofs.Conversion.Rendering
import RubyTokens.Proofs.Conversion.Placement
import RubyTokens.Proofs.Conversion.Coverage
import RubyTokens.Proofs.Heredoc.Bytes
import RubyTokens.Proofs.Conversion.Skipped
import RubyTokens.Proofs.Conversion.Unmapped
import RubyTokens.Proofs.Conversion.Failing
import RubyTokens.Proofs.Cursor.Protocol
import RubyTokens.Proofs.Conversion.Bounds
import RubyTokens.Proofs.Conversion.Shift
import RubyTokens.Proofs.Conversion.Sorted
import RubyTokens.Proofs.Heredoc.Sequence
import RubyTokens.Proofs.Heredoc.NextLine
import RubyTokens.Proofs.Conversion.Signs
import RubyTokens.Proofs.Number.Rounding
import RubyTokens.Proofs.Literal.Integer
import RubyTokens.Proofs.Literal.Decimal
import RubyTokens.Proofs.Literal.Underscores
import RubyTokens.Proofs.Literal.Refusal
import RubyTokens.Proofs.Conversion.Announced
import RubyTokens.Proofs.Json.Rows
import RubyTokens.Proofs.Command.LineEnds
import RubyTokens.Proofs.Token.Legible
import RubyTokens.Proofs.Command.Outputs
import RubyTokens.Proofs.Number.Digits
import RubyTokens.Proofs.Number.Numeral
import RubyTokens.Proofs.Text.LowerCase
import RubyTokens.Proofs.Literal.Separators
import RubyTokens.Proofs.Lexeme.States
import RubyTokens.Proofs.Lexeme.Rows
import RubyTokens.Proofs.Lexeme.Names
import RubyTokens.Proofs.Heredoc.Opener
import RubyTokens.Proofs.Source.Lines
import RubyTokens.Proofs.Number.Nearest
import RubyTokens.Proofs.Literal.Imaginary
