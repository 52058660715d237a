import RubyTokens.Text.Span

/-! A source text under its name. Ranges count UTF-8 bytes, so the text of a range exists only
where both ends fall between two characters; an end past the text is the end of the text, and an
empty range has the empty text wherever it lies. -/

namespace RubyTokens

structure Source where
  name : String
  text : String
  deriving DecidableEq, Repr

/-- The number of bytes of the characters in UTF-8. -/
def byteCount : List Char → Nat
  | [] => 0
  | c :: cs => c.utf8Size + byteCount cs

/-- What follows the first `n` bytes; none where byte `n` lies inside a character. -/
def dropBytes : Nat → List Char → Option (List Char)
  | _, [] => some []
  | n, c :: cs =>
    if n = 0 then some (c :: cs)
    else if c.utf8Size ≤ n then dropBytes (n - c.utf8Size) cs
    else none

/-- The characters of the first `n` bytes; none where byte `n` lies inside a character. -/
def takeBytes : Nat → List Char → Option (List Char)
  | _, [] => some []
  | n, c :: cs =>
    if n = 0 then some []
    else if c.utf8Size ≤ n then (takeBytes (n - c.utf8Size) cs).map (c :: ·)
    else none

namespace Source

def byteLength (s : Source) : Nat := s.text.utf8ByteSize

def fullSpan (s : Source) : Span := .sized 0 s.byteLength

/-- The text of a range, if the range does not cut through a character. -/
def slice (s : Source) (r : Span) : Option String :=
  if r.isEmpty then some ""
  else do
    let rest ← dropBytes r.start s.text.toList
    let cs ← takeBytes r.length rest
    return String.ofList cs

end Source

@[simp] theorem byteCount_nil : byteCount [] = 0 := rfl

@[simp] theorem byteCount_cons (c : Char) (cs : List Char) :
    byteCount (c :: cs) = c.utf8Size + byteCount cs := rfl

@[simp] theorem byteCount_append (as bs : List Char) :
    byteCount (as ++ bs) = byteCount as + byteCount bs := by
  induction as with
  | nil => simp
  | cons c as ih => simp [ih, Nat.add_assoc]

theorem dropBytes_byteCount_append (as bs : List Char) :
    dropBytes (byteCount as) (as ++ bs) = some bs := by
  induction as with
  | nil => cases bs <;> simp [dropBytes]
  | cons c as ih =>
    have : 0 < c.utf8Size := c.utf8Size_pos
    simp [dropBytes, ih, Nat.ne_of_gt this]

theorem takeBytes_byteCount_append (as bs : List Char) :
    takeBytes (byteCount as) (as ++ bs) = some as := by
  induction as with
  | nil => cases bs <;> simp [takeBytes]
  | cons c as ih =>
    have : 0 < c.utf8Size := c.utf8Size_pos
    simp [takeBytes, ih, Nat.ne_of_gt this]

end RubyTokens
