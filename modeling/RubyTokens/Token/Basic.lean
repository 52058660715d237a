import RubyTokens.Number.Binary64
import RubyTokens.Text.Basic
import RubyTokens.Text.Span
import RubyTokens.Token.Kind

/-! Tokens of the grammar: a kind, what the token carries, and the bytes of the source it covers. -/

namespace RubyTokens

/-- What a token carries: nothing, a text, or a number. Of an imaginary number only the imaginary
part is kept, since the other part is zero. -/
inductive Payload where
  | absent
  | text (value : Text)
  | integer (value : Int)
  | float (value : Binary64)
  | rational (value : Rat)
  | imaginary (part : Binary64)
  deriving DecidableEq

structure Token where
  kind : TokenKind
  payload : Payload
  span : Span
  deriving DecidableEq

end RubyTokens
