import RubyTokens.Lexeme.Kind
import RubyTokens.Lexeme.State

/-! Lexemes: what the lexer of Ruby reports for one piece of a source. Line and column are what the
lexer says; nothing here relates them to a source. -/

namespace RubyTokens

/-- A piece of source text with its position, its kind, and the lexer's state after it. -/
structure Lexeme where
  line : Int
  column : Int
  kind : Text
  text : Text
  stateAfter : State
  deriving DecidableEq, Repr

namespace Lexeme

/-- The kind, if it is a known one. -/
def kind? (l : Lexeme) : Option LexemeKind := LexemeKind.ofText? l.kind

def hasKind (l : Lexeme) (k : LexemeKind) : Bool := l.kind == k.name

/-- The number of bytes of the text, if it has bytes. -/
def byteLength (l : Lexeme) : Except Text.Halves Nat := l.text.string.map String.utf8ByteSize

/-- Whether a physical line ends with the lexeme: a comment holds the line end that follows it. -/
def endsLine (l : Lexeme) : Bool :=
  l.hasKind .newline || l.hasKind .ignoredNewline ||
    (l.hasKind .comment && l.text.points.getLast? == some (.char '\n'))

theorem hasKind_iff {l : Lexeme} {k : LexemeKind} : l.hasKind k = true ↔ l.kind? = some k := by
  rw [hasKind, kind?, beq_iff_eq, LexemeKind.ofText?_eq_some_iff]

end Lexeme

end RubyTokens
