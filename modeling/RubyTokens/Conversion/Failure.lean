import RubyTokens.Diagnostic
import RubyTokens.Literal.Error
import RubyTokens.Text.Lines
import RubyTokens.Conversion.Cursor

/-! Why a conversion fails. -/

namespace RubyTokens

/-- A lexeme that the tables do not know, a position outside the source, a text without bytes, a
literal that has no value, the end of a regular expression without a text, an embedded document
without an end, or a fault of the cursor. -/
inductive Failure where
  | rejected (rejection : Rejection)
  | position (error : LineError)
  | halves (halves : Text.Halves)
  | literal (error : LiteralError)
  | emptyRegexpEnd
  | openEmbdoc (line column : Int)
  | cursor (fault : Cursor.Fault)
  deriving DecidableEq, Repr

def Failure.message : Failure → String
  | rejected r => r.message
  | position e => e.message
  | halves h => h.message
  | literal e => e.message
  | emptyRegexpEnd => "string index out of range"
  | openEmbdoc line column =>
    "Unterminated embedded document at " ++ decimal line ++ ":" ++ decimal column
  | cursor fault => fault.message

end RubyTokens
