import RubyTokens.Lexeme.State
import RubyTokens.Conversion.Vocabulary

/-! Rules for lexemes that mean different things in different places. Each is a function of the
state that the lexer was in before the lexeme; for the minus sign the kind of the lexeme after it
counts too. -/

namespace RubyTokens.Ambiguous

/-- Whether a keyword with two uses follows a statement in this state. -/
def isModifier (s : State) : Bool := s ≠ .beg ∧ s ≠ .fname ∧ s ≠ .classDef

def lbrace (s : State) : TokenKind :=
  if s = .ended then .lcurly else if s = .endArg then .lbraceArg else .lbrace

def lbracket (s : State) : TokenKind := if s = .beg then .lbrack else .lbrack2

def lparen (s : State) : TokenKind :=
  if s.hasBegin ∨ s = .mid then .lparen
  else if s = .cmdArg ∨ s = .arg ∨ s = State.ended.union .label then .lparenArg
  else .lparen2

def ampersand (s : State) : TokenKind := if s = .beg then .amper else .amper2

/-- A minus where an expression may begin is a sign, and belongs to a number after it. -/
def minus (s : State) (following : Option Text) : TokenKind :=
  if s.hasBegin ∨ s = .cmdArg then
    if (following.bind LexemeKind.ofText?).any LexemeKind.isNumeric then .unaryNum else .uminus
  else .minus

def colon2 (s : State) : TokenKind := if s = .beg then .colon3 else .colon2

/-- A range operator without a left side is a token of its own. -/
def range (s : State) (text : String) : TokenKind :=
  if text = ".." then if s = .beg then .bdot2 else .dot2
  else if s = .beg then .bdot3 else .dot3

/-- The token of a keyword with two uses. -/
def modifierKeyword? (s : State) (text : String) : Option TokenKind :=
  (modifierKeywords.lookup text).map fun (block, modifier) =>
    if isModifier s then modifier else block

end RubyTokens.Ambiguous
