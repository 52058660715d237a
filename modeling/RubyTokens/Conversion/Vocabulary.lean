import RubyTokens.Lexeme.Kind
import RubyTokens.Token.Kind

/-! The tables that need no look at the lexer's state: which token a keyword, an operator or a kind
of lexeme becomes. -/

namespace RubyTokens

/-- Keywords with one meaning. -/
def keywords : List (String × TokenKind) := [
  ("__LINE__", .kwLine), ("__FILE__", .kwFile), ("__ENCODING__", .kwEncoding),
  ("BEGIN", .kwUpperBegin), ("END", .kwUpperEnd), ("alias", .kwAlias), ("and", .kwAnd),
  ("begin", .kwBegin), ("break", .kwBreak), ("case", .kwCase), ("class", .kwClass),
  ("def", .kwDef), ("defined?", .kwDefined), ("do", .kwDo), ("else", .kwElse),
  ("elsif", .kwElsif), ("end", .kwEnd), ("ensure", .kwEnsure), ("false", .kwFalse),
  ("for", .kwFor), ("in", .kwIn), ("module", .kwModule), ("next", .kwNext), ("nil", .kwNil),
  ("not", .kwNot), ("or", .kwOr), ("redo", .kwRedo), ("retry", .kwRetry), ("return", .kwReturn),
  ("self", .kwSelf), ("super", .kwSuper), ("then", .kwThen), ("true", .kwTrue),
  ("undef", .kwUndef), ("when", .kwWhen), ("yield", .kwYield)]

/-- Keywords that open a block or follow a statement, with the token for each use. -/
def modifierKeywords : List (String × TokenKind × TokenKind) := [
  ("if", .kwIf, .kwIfMod), ("unless", .kwUnless, .kwUnlessMod), ("while", .kwWhile, .kwWhileMod),
  ("until", .kwUntil, .kwUntilMod), ("rescue", .kwRescue, .kwRescueMod)]

/-- Operators with one meaning. -/
def operators : List (String × TokenKind) := [
  ("~", .tilde), ("?", .eh), (":", .colon), ("!", .bang), ("!=", .neq), ("!~", .nmatch),
  ("*", .star), ("**", .dstar), ("/", .divide), ("&.", .anddot), ("&&", .andop), ("%", .percent),
  ("^", .caret), ("+", .plus), ("<", .less), ("<<", .lshft), ("<=", .leq), ("<=>", .cmp),
  ("=", .eql), ("==", .eq), ("===", .eqq), ("=>", .assoc), ("=~", .matchOp), (">", .greater),
  (">=", .geq), (">>", .rshft), ("|", .pipe), ("||", .orop), ("[]", .aref), ("[]=", .aset)]

/-- Operators that end in the equals sign of an assignment. -/
def assignmentOperators : List String := [
  "+=", "-=", "*=", "/=", "%=", "**=", "^=", "<<=", ">>=", "|=", "||=", "&=", "&&="]

namespace LexemeKind

/-- The token of a lexeme that is carried over as it is. -/
def direct? : LexemeKind → Option TokenKind
  | backtick => some .xstringBeg
  | comma => some .comma
  | constant => some .constant
  | classVariable => some .classVariable
  | embexprBeg => some .stringCodeBeg
  | embexprEnd => some .stringCodeEnd
  | globalVariable => some .globalVariable
  | instanceVariable => some .instanceVariable
  | period => some .dot
  | rbrace => some .rcurly
  | rbracket => some .rbrack
  | regexpBeg => some .regexpBeg
  | rparen => some .rparen
  | semicolon => some .semi
  | tlambda => some .lambda
  | tlambeg => some .lambeg
  | tstringContent => some .stringContent
  | tstringEnd => some .stringEnd
  | _ => none

/-- The token that opens a list of words. -/
def wordList? : LexemeKind → Option TokenKind
  | wordsBeg => some .wordsBeg
  | qwordsBeg => some .qwordsBeg
  | symbolsBeg => some .symbolsBeg
  | qsymbolsBeg => some .qsymbolsBeg
  | _ => none

/-- Space that the grammar never sees. -/
def isDropped : LexemeKind → Bool
  | space | ignoredSpace => true
  | _ => false

end LexemeKind

end RubyTokens
