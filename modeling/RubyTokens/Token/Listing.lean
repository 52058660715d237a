import RubyTokens.Number.Integer
import RubyTokens.Number.Shortest
import RubyTokens.Text.Source
import RubyTokens.Token.Basic

/-! Listings of tokens, one line for each. A line shows a token's kind, payload and range, and the
source text of the range. Two layouts are in use: a plain one and one with columns. A token cannot
be listed if its range cuts through a character, or if its payload is a number with too many
digits; where both are the case, the layouts differ in which they report. -/

namespace RubyTokens

/-- Why a token has no line. -/
inductive ListingError where
  | cutCharacter
  | longNumber
  deriving DecidableEq, Repr

def ListingError.message : ListingError → String
  | .cutCharacter => "the range cuts through a character"
  | .longNumber => digitLimitMessage none

/-- How a payload is shown. -/
def Payload.shown : Payload → Except ListingError String
  | .absent => .ok "None"
  | .text s => .ok (quoted s)
  | .integer n => (decimal? n).elim (.error .longNumber) .ok
  | .float x => .ok (x.text .standard)
  | .rational q =>
    match decimal? q.num, decimal? q.den with
    | some n, some d => .ok ("Fraction(" ++ n ++ ", " ++ d ++ ")")
    | _, _ => .error .longNumber
  | .imaginary x => .ok (x.text .bare ++ "j")

namespace Token

def sourceText (source : Source) (t : Token) : Except ListingError String :=
  (source.slice t.span).elim (.error .cutCharacter) .ok

/-- The line of the plain layout for the token with this index. -/
def line (source : Source) (index : Nat) (t : Token) : Except ListingError String := do
  let payload ← t.payload.shown
  let text ← t.sourceText source
  return s!"[{index}] {t.kind.name} payload={payload} range={t.span.pairText} text=" ++ quoted text

/-- A text with fillers before it up to a width. -/
def padLeft (filler : Char) (width : Nat) (s : String) : String :=
  String.ofList (List.replicate (width - s.length) filler ++ s.toList)

/-- A text with spaces behind it up to a width. -/
def padRight (width : Nat) (s : String) : String :=
  String.ofList (s.toList ++ List.replicate (width - s.length) ' ')

/-- The line of the layout with columns for the token with this index. -/
def columnLine (source : Source) (index : Nat) (t : Token) : Except ListingError String := do
  let text ← t.sourceText source
  let payload ← t.payload.shown
  let head := padLeft '0' 3 (decimal index) ++ " " ++ padRight 15 t.kind.name
  return head ++ s!" range={t.span.pairText} payload={payload} text=" ++ quoted text

end Token

/-- A line for every item under its index, counted from `index`, or the first error. -/
def linesFrom {α ε : Type} (line : Nat → α → Except ε String) (index : Nat) :
    List α → Except ε (List String)
  | [] => .ok []
  | x :: xs => do
    let l ← line index x
    let ls ← linesFrom line (index + 1) xs
    return l :: ls

/-- The listing in the plain layout. -/
def listTokens (source : Source) (tokens : List Token) : Except ListingError (List String) :=
  linesFrom (Token.line source) 0 tokens

/-- The listing in the layout with columns. -/
def listColumns (source : Source) (tokens : List Token) : Except ListingError (List String) :=
  linesFrom (Token.columnLine source) 0 tokens

theorem length_linesFrom {α ε : Type} {line : Nat → α → Except ε String} {i : Nat} {xs : List α}
    {ls : List String} (h : linesFrom line i xs = .ok ls) : ls.length = xs.length := by
  induction xs generalizing i ls with
  | nil => cases h; rfl
  | cons x xs ih =>
    simp only [linesFrom] at h
    cases hx : line i x with
    | error e => rw [hx] at h; cases h
    | ok l =>
      cases hr : linesFrom line (i + 1) xs with
      | error e => rw [hx, hr] at h; cases h
      | ok rest =>
        rw [hx, hr] at h
        cases h
        rw [List.length_cons, List.length_cons, ih hr]

end RubyTokens
