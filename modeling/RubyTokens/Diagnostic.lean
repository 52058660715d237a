import RubyTokens.Lexeme.Basic
import RubyTokens.Number.Integer
import RubyTokens.Text.Span

/-! Diagnostics: what a reader of a report is told about a lexeme that the tables have no entry for.
A specification fixes the code and the wording of one kind of report; a rejection joins it to the
lexeme and its range. -/

namespace RubyTokens

structure DiagnosticSpec where
  code : String
  message : String
  hint : Option String := none
  severity : String := "error"
  category : Option String := none
  deriving DecidableEq, Repr

structure Diagnostic where
  code : String
  message : String
  span : Span
  severity : String
  hint : Option String
  category : Option String
  deriving DecidableEq, Repr

namespace DiagnosticSpec

def unknownKind : DiagnosticSpec where
  code := "TRANSLATE_UNMAPPED_PRIMITIVE_KIND"
  message := "Unknown primitive token kind."
  hint := some ("The tokenizer emitted a token kind this translator has no mapping for; " ++
    "check the Ruby version.")
  category := some "translate"

def unknownOperator : DiagnosticSpec where
  code := "TRANSLATE_UNMAPPED_OPERATOR"
  message := "Unknown operator text."
  hint := some "Add the operator to the operator table or a disambiguation rule."
  category := some "translate"

def unknownKeyword : DiagnosticSpec where
  code := "TRANSLATE_UNMAPPED_KEYWORD"
  message := "Unknown keyword text."
  hint := some "Add the keyword to the keyword table."
  category := some "translate"

/-- The specifications of this library. -/
def all : List DiagnosticSpec := [unknownKind, unknownOperator, unknownKeyword]

/-- The diagnostic for a range; a detail follows the message behind a space. -/
def diagnose (spec : DiagnosticSpec) (span : Span) (detail : Option String) : Diagnostic where
  code := spec.code
  message := detail.elim spec.message fun d => spec.message ++ " " ++ d
  span := span
  severity := spec.severity
  hint := spec.hint
  category := spec.category

end DiagnosticSpec

/-- A lexeme that cannot be converted, with the part of it that is at fault in quoted form. -/
structure Rejection where
  spec : DiagnosticSpec
  detail : String
  lexeme : Lexeme
  span : Span
  deriving DecidableEq, Repr

namespace Rejection

def unknownKind (l : Lexeme) (span : Span) : Rejection := ⟨.unknownKind, quoted l.kind, l, span⟩

def unknownOperator (l : Lexeme) (span : Span) : Rejection :=
  ⟨.unknownOperator, quoted l.text, l, span⟩

def unknownKeyword (l : Lexeme) (span : Span) : Rejection :=
  ⟨.unknownKeyword, quoted l.text, l, span⟩

/-- A rejection that names the kind and the text of the lexeme. -/
def general (spec : DiagnosticSpec) (l : Lexeme) (span : Span) : Rejection :=
  ⟨spec, l.kind.toString ++ " " ++ quoted l.text, l, span⟩

def message (r : Rejection) : String :=
  r.spec.message ++ " " ++ r.detail ++ " at " ++ decimal r.lexeme.line ++ ":" ++
    decimal r.lexeme.column

def diagnostic (r : Rejection) : Diagnostic := r.spec.diagnose r.span (some r.detail)

@[simp] theorem span_diagnostic (r : Rejection) : r.diagnostic.span = r.span := rfl

end Rejection

end RubyTokens
