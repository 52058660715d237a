import RubyTokens.Text.Source
import RubyTokens.Text.Quoted

/-! Where the lines of a source start. Lines end at U+000A only. A last line without a line end
adds the end of the text as one more boundary, so that the position after its last byte has a line
number of its own. Positions are pairs of a line, counted from 1, and a byte column, counted from
0; both are arbitrary integers, and a column may lie outside its line as long as the byte it
denotes lies in the text. -/

namespace RubyTokens

/-- Why a position, or a length at a position, denotes no bytes of the source. -/
inductive LineError where
  | noLine (line : Int) (name : String)
  | measure (error : SpanError)
  | outside (span : Span) (name : String) (byteLength : Nat)
  deriving DecidableEq, Repr

def LineError.message : LineError → String
  | .noLine line name => s!"Line {line} is outside of " ++ quoted name
  | .measure e => e.message
  | .outside span name n => s!"{span.text} is outside of " ++ quoted name ++ s!" ({n} bytes)"

/-- The offsets just after each line feed, for characters whose first byte is at `offset`. -/
def lineBoundaries (offset : Nat) : List Char → List Nat
  | [] => []
  | c :: cs =>
    let next := offset + c.utf8Size
    if c = '\n' then next :: lineBoundaries next cs else lineBoundaries next cs

/-- The offset at which each line starts, and the end of a last line that has no line feed. -/
def lineStarts (s : Source) : List Nat :=
  let starts := 0 :: lineBoundaries 0 s.text.toList
  if starts.getLastD 0 < s.byteLength then starts ++ [s.byteLength] else starts

structure LineTable where
  source : Source
  starts : List Nat
  deriving DecidableEq, Repr

namespace LineTable

def ofSource (s : Source) : LineTable := ⟨s, lineStarts s⟩

/-- The byte that a position denotes. -/
def offset (t : LineTable) (line column : Int) : Except LineError Nat :=
  if line < 1 then .error (.noLine line t.source.name)
  else match t.starts[(line - 1).toNat]? with
    | none => .error (.noLine line t.source.name)
    | some start => (readSize (start + column)).mapError .measure

/-- The bytes from a position on, which have to lie in the source. -/
def span (t : LineTable) (line column length : Int) : Except LineError Span := do
  let start ← t.offset line column
  let n ← (readSize length).mapError .measure
  let span := Span.sized start n
  if t.source.fullSpan.contains span then return span
  else throw (.outside span t.source.name t.source.byteLength)

end LineTable

end RubyTokens
