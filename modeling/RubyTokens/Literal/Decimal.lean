import RubyTokens.Literal.Integer
import RubyTokens.Number.Binary64

/-! Literals with a decimal point or an exponent. Their form is checked once the underscores are
taken away, wherever these stand. The same form gives the value of a floating-point literal, rounded
once, and of a rational literal, exactly. -/

namespace RubyTokens

/-- A decimal number as written: sign, digits before the point, digits behind it, exponent. -/
structure DecimalForm where
  negative : Bool
  whole : List Char
  fraction : Option (List Char)
  exponent : Option Int
  deriving DecidableEq, Repr

namespace DecimalForm

/-- One digit at least, and what follows the digits. -/
def takeRun (cs : List Char) : Option (List Char × List Char) :=
  match cs.takeWhile isDecimalDigit with
  | [] => none
  | ds => some (ds, cs.dropWhile isDecimalDigit)

def value (ds : List Char) : Nat := digitsValue 10 (ds.filterMap decimalDigit?)

def takeFraction : List Char → Option (Option (List Char) × List Char)
  | '.' :: cs => (takeRun cs).map fun (ds, rest) => (some ds, rest)
  | cs => some (none, cs)

def takeExponent : List Char → Option (Option Int × List Char)
  | c :: cs =>
    if c = 'e' ∨ c = 'E' then
      let (negative, body) := splitSign cs
      (takeRun body).map fun (ds, rest) => (some (withSign negative (value ds)), rest)
    else some (none, c :: cs)
  | [] => some (none, [])

/-- Reads a whole text that holds no underscores. -/
def read (cs : List Char) : Option DecimalForm := do
  let (negative, body) := splitSign cs
  let (whole, rest) ← takeRun body
  let (fraction, rest) ← takeFraction rest
  let (exponent, rest) ← takeExponent rest
  if rest = [] then some ⟨negative, whole, fraction, exponent⟩ else none

def toBinary64 (d : DecimalForm) : Binary64 :=
  let decimals := d.fraction.getD []
  .ofDecimal d.negative (value (d.whole ++ decimals)) (d.exponent.getD 0 - decimals.length)

/-- The exact value, whose digits are read before and behind the point each for itself. -/
def toRat (d : DecimalForm) : Except LiteralError Rat := do
  let decimals := d.fraction.getD []
  let whole ← readNumeral 10 d.whole
  let part ← if decimals = [] then pure 0 else readNumeral 10 decimals
  let scale : Nat := Nat.pow 10 decimals.length
  let magnitude := whole * scale + part
  return mkRat (if d.negative then -magnitude else magnitude) scale

end DecimalForm

namespace FloatLiteral

def parse (text : Text) : Except LiteralError Binary64 :=
  match DecimalForm.read (IntegerLiteral.dropUnderscores text.chars) with
  | some d => .ok d.toBinary64
  | none => .error (.malformed .float text)

end FloatLiteral

namespace RationalLiteral

/-- The text in front of the last character, if this is the given mark. -/
def beforeMark? (mark : Char) (text : Text) : Option Text :=
  if text.points.getLast? = some (.char mark) then some ⟨text.points.dropLast⟩ else none

/-- The value of a rational literal: a decimal without an exponent if there is a point, otherwise
an integer literal, before the mark at the end. -/
def parse (text : Text) : Except LiteralError Rat :=
  let malformed := LiteralError.malformed .rational text
  match beforeMark? 'r' text with
  | none => .error malformed
  | some body =>
    if .char '.' ∈ body.points then
      match DecimalForm.read (IntegerLiteral.dropUnderscores body.chars) with
      | some d => if d.exponent.isSome then .error malformed else d.toRat
      | none => .error malformed
    else (IntegerLiteral.parse body).map fun n => (n : Rat)

end RationalLiteral

end RubyTokens
