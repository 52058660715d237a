import RubyTokens.Json.Reader
import RubyTokens.Lexeme.Row

/-! Dumps: a JSON array with one row for each lexeme of a source, in the lexer's order. -/

namespace RubyTokens

/-- Why a text is not a dump. -/
inductive DumpError where
  | json (error : JsonError)
  | notAnArray (name : String)
  | row (error : RowError)

namespace Dump

/-- The lexemes of the dump of this name. -/
def read (name text : String) : Except DumpError (List Lexeme) := do
  match ← (Json.read text).mapError .json with
  | .array rows => (Row.decodeAll rows).mapError .row
  | _ => throw (.notAnArray name)

end Dump

def DumpError.message : DumpError → String
  | .json .malformed => "malformed JSON"
  | .json .deepArray =>
    "maximum recursion depth exceeded while decoding a JSON array from a unicode string"
  | .json .deepObject =>
    "maximum recursion depth exceeded while decoding a JSON object from a unicode string"
  | .json (.longInteger n) => digitLimitMessage n
  | .notAnArray name => name ++ ": expected a JSON array of lex rows"
  | .row e => e.message

end RubyTokens
