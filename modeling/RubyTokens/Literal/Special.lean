import RubyTokens.Literal.Error

/-! Payloads that are cut from a text: numbers of match groups, characters behind their question
mark, names before their colon, and what stands in front of a heredoc's name. -/

namespace RubyTokens

/-- The number of a match group such as `$1`; none for the other back references. -/
def groupNumber? (text : Text) : Except LiteralError (Option Int) :=
  match text.chars with
  | '$' :: d :: ds =>
    if (d :: ds).all isDecimalDigit then (readNumeral 10 (d :: ds)).map some else .ok none
  | _ => .ok none

/-- A text without its first character. -/
def dropFirst (text : Text) : Text := ⟨text.points.tail⟩

/-- A text without one character at its end, if it is the given one. -/
def dropMark (mark : Char) (text : Text) : Text :=
  if text.points.getLast? = some (.char mark) then ⟨text.points.dropLast⟩ else text

/-- A letter that can start a heredoc's name. -/
def isNameStart (c : Char) : Bool :=
  ('a' ≤ c && c ≤ 'z') || ('A' ≤ c && c ≤ 'Z') || c = '_'

/-- The code points before the first letter, which may not lie behind a line end. -/
def beforeName? : List CodePoint → Option (List CodePoint)
  | [] => none
  | p :: ps =>
    if isNameStart p.toChar then some []
    else if p = .char '\n' then none
    else (beforeName? ps).map (p :: ·)

/-- What stands before the name in a heredoc's opener: from the second character on the first
letter is looked for, and without one the whole text stands. -/
def heredocMark (text : Text) : Text :=
  match text.points with
  | p :: ps =>
    if p = .char '\n' then text
    else
      match beforeName? ps with
      | some mark => ⟨p :: mark⟩
      | none => text
  | [] => text

end RubyTokens
