import RubyTokens.Literal.Error
import RubyTokens.Text.LowerCase

/-! Integer literals. A mark in front chooses the radix, a zero before other characters the radix
eight. Underscores may not stand at an end of the digits or beside each other; the rest of the
check is left to the reading of the digits without them. -/

namespace RubyTokens.IntegerLiteral

/-- The radix of a literal in lower case, and its text without the mark of the radix. -/
def splitRadix : List Char → Nat × List Char
  | '0' :: 'x' :: cs => (16, cs)
  | '0' :: 'b' :: cs => (2, cs)
  | '0' :: 'o' :: cs => (8, cs)
  | '0' :: 'd' :: cs => (10, cs)
  | '0' :: '_' :: cs => (8, cs)
  | '0' :: c :: cs => (8, c :: cs)
  | cs => (10, cs)

def hasDoubleUnderscore : List Char → Bool
  | '_' :: '_' :: _ => true
  | _ :: cs => hasDoubleUnderscore cs
  | [] => false

/-- Whether there are digits and every underscore stands between two other characters. -/
def isWellSeparated (cs : List Char) : Bool :=
  cs.head?.any (· ≠ '_') && cs.getLast? != some '_' && !hasDoubleUnderscore cs

def dropUnderscores (cs : List Char) : List Char := cs.filter (· ≠ '_')

/-- The value of an integer literal. -/
def parse (text : Text) : Except LiteralError Int :=
  let (negative, body) := splitSign text.chars
  let (radix, digits) := splitRadix (lowerCase body)
  if isWellSeparated digits then
    let value := readNumeral radix (dropUnderscores digits) text.obscured
    value.map fun n => if negative then -n else n
  else .error (.malformed .integer text)

theorem underscore_notMem_dropUnderscores (cs : List Char) : '_' ∉ dropUnderscores cs := by
  simp [dropUnderscores]

end RubyTokens.IntegerLiteral
