import RubyTokens.Literal.Decimal

/-! Imaginary literals: the mark `i` behind a rational, an integer or a floating-point literal. The
value is the binary number nearest to that literal; the real part is zero and is not kept. A body
that is read as an integer is never read as anything else, even if its value is too large. -/

namespace RubyTokens

/-- The binary number nearest to an integer. -/
def Binary64.ofInt? (n : Int) : Except LiteralError Binary64 :=
  let x := ofQuotient (n < 0) n.natAbs 1
  if x.isInfinite then .error .integerTooLarge else .ok x

/-- The binary number nearest to a rational number. -/
def Binary64.ofRat? (q : Rat) : Except LiteralError Binary64 :=
  let x := ofQuotient (q.num < 0) q.num.natAbs q.den
  if x.isInfinite then .error .quotientTooLarge else .ok x

namespace ImaginaryLiteral

/-- The imaginary part. -/
def parse (text : Text) : Except LiteralError Binary64 :=
  match RationalLiteral.beforeMark? 'i' text with
  | none => .error (.malformed .imaginary text)
  | some body =>
    if body.points.getLast? = some (.char 'r') then
      (RationalLiteral.parse body).bind Binary64.ofRat?
    else
      match IntegerLiteral.parse body with
      | .ok n => Binary64.ofInt? n
      | .error _ => FloatLiteral.parse body

end ImaginaryLiteral

end RubyTokens
