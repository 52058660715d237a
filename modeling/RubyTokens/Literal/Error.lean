import RubyTokens.Number.Integer

/-! What can be wrong with a literal. A text that has not the form of its literal is malformed; a
text of the right form may still hold a character that is no digit of its radix, have too many
digits, or denote a number that no binary number is near to. -/

namespace RubyTokens

inductive LiteralForm where
  | integer | float | rational | imaginary
  deriving DecidableEq, Repr

def LiteralForm.name : LiteralForm → String
  | .integer => "integer"
  | .float => "float"
  | .rational => "rational"
  | .imaginary => "imaginary"

inductive LiteralError where
  | malformed (form : LiteralForm) (text : Text)
  | invalidNumeral (radix : Nat) (text : Text)
  | longNumeral (digits : Nat)
  | integerTooLarge
  | quotientTooLarge
  deriving DecidableEq, Repr

namespace LiteralError

def message : LiteralError → String
  | malformed form text => s!"Malformed {form.name} literal: " ++ quoted text
  | invalidNumeral radix text => invalidNumeralMessage radix text
  | longNumeral n => digitLimitMessage n
  | integerTooLarge => "int too large to convert to float"
  | quotientTooLarge => "integer division result too large for a float"

/-- Whether the text is at fault, and not the size of the number. -/
def isTextual : LiteralError → Bool
  | integerTooLarge | quotientTooLarge => false
  | _ => true

end LiteralError

/-- Reads the digits of a literal, of which some code points may be obscured. -/
def readNumeral (radix : Nat) (cs : List Char) (obscured : List CodePoint := []) :
    Except LiteralError Int :=
  match readInteger radix cs with
  | .ok n => .ok n
  | .error .invalid => .error (.invalidNumeral radix ⟨Text.uncover obscured cs⟩)
  | .error (.tooManyDigits n) => .error (.longNumeral n)

end RubyTokens
