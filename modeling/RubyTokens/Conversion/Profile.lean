import RubyTokens.Lexeme.Kind
import RubyTokens.Text.Quoted

/-! Options: releases of the lexer differ in two respects, and a profile sets both. -/

namespace RubyTokens

/-- The generation of the lexer that the lexemes come from. -/
inductive Profile where
  | current | legacy
  deriving DecidableEq, Repr

namespace Profile

def name : Profile → String
  | current => "current"
  | legacy => "legacy"

def all : List Profile := [current, legacy]

def ofName? (name : String) : Option Profile := all.find? (·.name = name)

/-- The message on a name that is no profile's. -/
def unknownMessage (name : String) : String := quoted name ++ " is not a valid TokenizerProfile"

end Profile

/-- Whether a leading plus of an integer is a token of its own, and the kind of lexeme that a
character literal has. -/
structure Options where
  profile : Profile := .current
  splitSignedIntegers : Bool := true
  characterKind : String := LexemeKind.character.name
  deriving DecidableEq, Repr

def Options.ofProfile : Profile → Options
  | .current => {}
  | .legacy => ⟨.legacy, false, "on_char"⟩

end RubyTokens
