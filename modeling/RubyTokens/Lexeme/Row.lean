import RubyTokens.Json.Value
import RubyTokens.Lexeme.Basic

/-! Lexemes as JSON rows `[[line, column], kind, text, state]`. A row that does not fall into four
parts, or a position that does not fall into two, is malformed as a whole. The parts are converted
in the order state, line, column, and the first that cannot be converted is reported; a kind and a
text can be any value. A kind may be marked as a symbol by a colon in front, and a state may be a
number or the names of its flags. -/

namespace RubyTokens

/-- Why a row is not a lexeme. -/
inductive RowError where
  | malformed (row : Json)
  | unknownState (part : Text)
  | notANumber
  | invalidNumber (text : Text)
  | longNumber (digits : Nat)
  | undefinedNumber
  | infiniteNumber

def RowError.message : RowError → String
  | .malformed row => "Malformed lex row: " ++ row.display
  | .unknownState part => "Unknown lexer state: " ++ quoted part
  | .notANumber => "not a number"
  | .invalidNumber text => invalidNumeralMessage 10 text
  | .longNumber n => digitLimitMessage n
  | .undefinedNumber => "cannot convert float NaN to integer"
  | .infiniteNumber => "cannot convert float infinity to integer"

namespace Row

/-- A value as an integer: a fraction is cut off, a truth value counts as zero or one, and a text
is read as a decimal numeral. -/
def toInteger : Json → Except RowError Int
  | .integer n => .ok n
  | .bool b => .ok (if b then 1 else 0)
  | .float x =>
    match x.truncate? with
    | some n => .ok n
    | none => .error (if x.isInfinite then .infiniteNumber else .undefinedNumber)
  | .text s =>
    match readInteger 10 s.chars with
    | .ok n => .ok n
    | .error .invalid => .error (.invalidNumber s)
    | .error (.tooManyDigits n) => .error (.longNumber n)
  | _ => .error .notANumber

def toState : Json → Except RowError State
  | .text s => (State.parse s).mapError .unknownState
  | v => (toInteger v).map .ofInt

/-- A kind without the colon that marks it as a symbol. -/
def bareKind (kind : Text) : Text :=
  match kind.points with
  | .char ':' :: ps => ⟨ps⟩
  | _ => kind

/-- The line, the column and the other three parts of a row. -/
def split? (row : Json) : Option (Json × Json × Json × Json × Json) := do
  match ← row.parts? with
  | [position, kind, text, state] =>
    match ← position.parts? with
    | [line, column] => some (line, column, kind, text, state)
    | _ => none
  | _ => none

def decode (row : Json) : Except RowError Lexeme :=
  match split? row with
  | none => .error (.malformed row)
  | some (line, column, kind, text, state) => do
    let state ← toState state
    let line ← toInteger line
    let column ← toInteger column
    return ⟨line, column, bareKind kind.plain, text.plain, state⟩

/-- The lexemes of a list of rows, or what is wrong with the first bad one. -/
def decodeAll (rows : List Json) : Except RowError (List Lexeme) := rows.mapM decode

/-- A lexeme as a row, with its kind as a symbol and its state as a number or as names. -/
def encode (asSymbol named : Bool) (l : Lexeme) : Json :=
  .array [.array [.integer l.line, .integer l.column],
    .text (if asSymbol then (":" : Text) ++ l.kind else l.kind), .text l.text,
    if named then .text l.stateAfter.text else .integer l.stateAfter.bits]

end Row

end RubyTokens
