import RubyTokens.Literal.Imaginary
import RubyTokens.Literal.Special
import RubyTokens.Text.Newline
import RubyTokens.Token.Basic
import RubyTokens.Conversion.Failure
import RubyTokens.Conversion.Role
import RubyTokens.Conversion.Ambiguous

/-! What a lexeme yields: tokens, and one move of the cursor. Most lexemes become one token; a few
are split, and some are folded with the lexemes behind them into one token. All ranges are made by
the line table and thus lie in the source; a text without bytes has no range. Folding looks at the
neighbours in the lexer's order. -/

namespace RubyTokens

/-- A move of the cursor that a lexeme asks for. -/
inductive Move where
  | onward
  | consume (count : Nat)
  | consumeThrough (index : Int)
  | finish
  | openHeredoc
  | closeHeredoc
  | endLine
  deriving DecidableEq, Repr

/-- What becomes of a lexeme: its tokens, and the one move that it asks for. That it cannot ask for
a second one is part of the type, and that the cursor is never given a second target rests on it. -/
structure Yield where
  tokens : List Token
  move : Move := .onward
  deriving DecidableEq

namespace Yield

/-- The range of some bytes at a lexeme's position, shifted to the right. -/
def spanAt (lines : LineTable) (l : Lexeme) (shift length : Nat) : Except Failure Span :=
  (lines.span l.line (l.column + shift) length).mapError .position

def spanOf (lines : LineTable) (l : Lexeme) : Except Failure Span := do
  spanAt lines l 0 (← l.byteLength.mapError .halves)

/-- The lexeme as one token. -/
def single (lines : LineTable) (l : Lexeme) (kind : TokenKind) (payload : Payload) :
    Except Failure (List Token) := do
  return [⟨kind, payload, ← spanOf lines l⟩]

/-- The lexeme as one token that carries the value of a literal. -/
def valued {α : Type} (lines : LineTable) (l : Lexeme) (kind : TokenKind) (payload : α → Payload)
    (value : Except LiteralError α) : Except Failure (List Token) := do
  single lines l kind (payload (← value.mapError .literal))

/-! ### Lexemes on their own -/

def identifier (lines : LineTable) (l : Lexeme) : Except Failure (List Token) :=
  let last := l.text.points.getLast?
  let isMethod := last = some (.char '!') ∨ last = some (.char '?')
  let kind := if isMethod then .methodName else .identifier
  single lines l kind (.text l.text)

/-- The token of a keyword. -/
def keywordKind? (state : State) (text : String) : Option TokenKind :=
  (Ambiguous.modifierKeyword? state text).or (keywords.lookup text)

def keyword (lines : LineTable) (state : State) (l : Lexeme) : Except Failure (List Token) :=
  match l.text.string?.bind (keywordKind? state) with
  | some kind => single lines l kind (.text l.text)
  | none => do throw (.rejected (.unknownKeyword l (← spanOf lines l)))

/-- The token and the payload of an operator. -/
def operatorKind? (state : State) (following : Option Text) (text : String) :
    Option (TokenKind × Text) :=
  if text = "::" then some (Ambiguous.colon2 state, text)
  else if text = "-" then some (Ambiguous.minus state following, text)
  else if text = "&" then some (Ambiguous.ampersand state, text)
  else if text = ".." ∨ text = "..." then some (Ambiguous.range state text, text)
  else if text ∈ assignmentOperators then some (.opAsgn, dropMark '=' text)
  else (operators.lookup text).map fun kind => (kind, .ofString text)

def operator (lines : LineTable) (state : State) (following : Option Text) (l : Lexeme) :
    Except Failure (List Token) :=
  match l.text.string?.bind (operatorKind? state following) with
  | some (kind, payload) => single lines l kind (.text payload)
  | none => do throw (.rejected (.unknownOperator l (← spanOf lines l)))

/-- An integer; a plus in front is a token of its own if the options say so. -/
def integer (lines : LineTable) (split : Bool) (l : Lexeme) : Except Failure (List Token) :=
  if l.text.points.head? = some (.char '+') ∧ split then do
    let signSpan ← spanAt lines l 0 1
    let value ← (IntegerLiteral.parse (dropFirst l.text)).mapError .literal
    let length ← l.byteLength.mapError .halves
    let span ← spanAt lines l 1 (length - 1)
    return [⟨.unaryNum, .text "+", signSpan⟩, ⟨.integer, .integer value, span⟩]
  else valued lines l .integer .integer (IntegerLiteral.parse l.text)

def backReference (lines : LineTable) (l : Lexeme) : Except Failure (List Token) := do
  match ← (groupNumber? l.text).mapError .literal with
  | some n => single lines l .nthRef (.integer n)
  | none => single lines l .backRef (.text l.text)

/-- The end of a regular expression: its delimiter, and its options as a second token. -/
def regexpEnd (lines : LineTable) (l : Lexeme) : Except Failure (List Token) :=
  match l.text.points with
  | [] => .error .emptyRegexpEnd
  | delimiter :: options => do
    let delimiter ← (Text.string ⟨[delimiter]⟩).mapError .halves
    let first ← spanAt lines l 0 delimiter.utf8ByteSize
    let options ← (Text.string ⟨options⟩).mapError .halves
    let second ← spanAt lines l delimiter.utf8ByteSize options.utf8ByteSize
    return [⟨.stringEnd, .text delimiter, first⟩, ⟨.regexpOpt, .text options, second⟩]

/-- The lexeme without the line end at its end. -/
def chomped (lines : LineTable) (l : Lexeme) (kind : TokenKind) : Except Failure (List Token) := do
  let text ← (chomp l.text).string.mapError .halves
  return [⟨kind, .text text, ← spanAt lines l 0 text.utf8ByteSize⟩]

/-! ### Lexemes with others behind them -/

/-- The token over two lexemes and all between them. -/
def covering (lines : LineTable) (start : Span) (closer : Lexeme) (kind : TokenKind)
    (text : Text) : Except Failure (List Token) := do
  return [⟨kind, .text text, start.cover (← spanOf lines closer)⟩]

def isPlainQuote (text : Text) : Bool := text = "\"" ∨ text = "\x27"

/-- The rest of a string that is one piece, from the two lexemes behind its opener: its content, the
number of lexemes and the last of them. -/
def plainRest? (following closer : Option Lexeme) : Option (Text × Nat × Lexeme) :=
  following.bind fun f =>
    if f.hasKind .tstringEnd then some ("", 1, f)
    else closer.bind fun e =>
      if f.hasKind .tstringContent ∧ e.hasKind .tstringEnd then some (f.text, 2, e) else none

/-- A string between plain quotes, with one content at most, is one token; any other string is
converted piece by piece. -/
def string (lines : LineTable) (c : Cursor) (opener : Lexeme) : Except Failure Yield := do
  let start ← spanOf lines opener
  let following ← (c.peek 1).mapError .cursor
  let closer ← (c.peek 2).mapError .cursor
  match if isPlainQuote opener.text then plainRest? following closer else none with
  | some (content, count, last) =>
    return ⟨← covering lines start last .string content, .consume count⟩
  | none => return { tokens := [⟨.stringBeg, .text opener.text, start⟩] }

/-- A plain symbol is one token with whatever lexeme follows the colon. -/
def symbol (lines : LineTable) (c : Cursor) (opener : Lexeme) : Except Failure Yield := do
  let start ← spanOf lines opener
  let following ← (c.peek 1).mapError .cursor
  match if opener.text = ":" then following else none with
  | some content => return ⟨← covering lines start content .symbol content.text, .consume 1⟩
  | none => return { tokens := [⟨.symbeg, .text opener.text, start⟩] }

/-- An embedded document is one comment, up to and with its end. -/
def embdoc (lines : LineTable) (c : Cursor) (opener : Lexeme) : Except Failure Yield := do
  match ← (c.findForward LexemeKind.embdocEnd.name).mapError .cursor with
  | none => throw (.openEmbdoc opener.line opener.column)
  | some index =>
    let run := c.runThrough index
    let text := Text.join (run.map Lexeme.text)
    let start ← spanOf lines opener
    return ⟨← covering lines start (run.getLastD opener) .comment text, .consumeThrough index⟩

/-- A list of words takes the separator right behind its opener with it. -/
def wordList (lines : LineTable) (c : Cursor) (opener : Lexeme) (kind : TokenKind) :
    Except Failure Yield := do
  let following ← (c.peekKind 1).mapError .cursor
  let move := if following = some LexemeKind.wordsSep.name then .consume 1 else .onward
  return ⟨← single lines opener kind (.text opener.text), move⟩

/-! ### All lexemes -/

/-- What a lexeme of a known kind yields that is neither dropped nor carried over. -/
def ofKind (lines : LineTable) (options : Options) (state : State) (c : Cursor) (l : Lexeme) :
    LexemeKind → Except Failure Yield
  | .identifier => return { tokens := ← identifier lines l }
  | .keyword => return { tokens := ← keyword lines state l }
  | .operator => do
    let following ← (c.peekKind 1).mapError .cursor
    return { tokens := ← operator lines state following l }
  | .integer => return { tokens := ← integer lines options.splitSignedIntegers l }
  | .float => return { tokens := ← valued lines l .float .float (FloatLiteral.parse l.text) }
  | .rational =>
    return { tokens := ← valued lines l .rational .rational (RationalLiteral.parse l.text) }
  | .imaginary =>
    return { tokens := ← valued lines l .imaginary .imaginary (ImaginaryLiteral.parse l.text) }
  | .backref => return { tokens := ← backReference lines l }
  | .label => return { tokens := ← single lines l .label (.text (dropMark ':' l.text)) }
  | .labelEnd => return { tokens := ← single lines l .labelEnd (.text (dropMark ':' l.text)) }
  | .embvar => return { tokens := ← single lines l .stringVariable .absent }
  | .wordsSep => return { tokens := ← single lines l .space .absent }
  | .lbrace => return { tokens := ← single lines l (Ambiguous.lbrace state) (.text l.text) }
  | .lbracket => return { tokens := ← single lines l (Ambiguous.lbracket state) (.text l.text) }
  | .lparen => return { tokens := ← single lines l (Ambiguous.lparen state) (.text l.text) }
  | .newline | .ignoredNewline => return ⟨← single lines l .newline .absent, .endLine⟩
  | .comment =>
    return ⟨← chomped lines l .comment, if l.endsLine then .endLine else .onward⟩
  | .tstringBeg => string lines c l
  | .symbeg => symbol lines c l
  | .regexpEnd => return { tokens := ← regexpEnd lines l }
  | .embdocBeg => embdoc lines c l
  | .heredocBeg =>
    return ⟨← single lines l .stringBeg (.text (heredocMark l.text)), .openHeredoc⟩
  | .heredocEnd => return ⟨← chomped lines l .stringEnd, .closeHeredoc⟩
  | .dataEnd => return ⟨[], .finish⟩
  | _ => do throw (.rejected (.unknownKind l (← spanOf lines l)))

/-- What a lexeme yields, where `state` is the lexer's state before it and the cursor is at it. -/
def ofLexeme (lines : LineTable) (options : Options) (state : State) (c : Cursor) (l : Lexeme) :
    Except Failure Yield :=
  match Role.of options l.kind with
  | .dropped => return { tokens := [] }
  | .direct kind => return { tokens := ← single lines l kind (.text l.text) }
  | .wordList kind => wordList lines c l kind
  | .character => return { tokens := ← single lines l .character (.text (dropFirst l.text)) }
  | .known k => ofKind lines options state c l k
  | .unknown => do throw (.rejected (.unknownKind l (← spanOf lines l)))

end Yield

end RubyTokens
