import RubyTokens.Text.Blank
import RubyTokens.Text.DecimalDigit
import RubyTokens.Text.Quoted

/-! Integers as text. A numeral may have white space around it, one sign, and for the radices 2, 8
and 16 a mark of the radix; single underscores may separate its digits. Decimal digits of every
script count. A radix that is not a power of two bounds the number of digits, both when a numeral
is read and when one is written. -/

namespace RubyTokens

/-- The most digits that a numeral may have in a radix that is not a power of two. -/
def digitLimit : Nat := 4300

/-- Why a text is not read as an integer. -/
inductive NumeralError where
  | invalid
  | tooManyDigits (count : Nat)
  deriving DecidableEq, Repr

/-- What a character is worth as a digit of any radix up to 36. -/
def digitValue? (c : Char) : Option Nat :=
  if 'a' ≤ c ∧ c ≤ 'z' then some (c.toNat - 87)
  else if 'A' ≤ c ∧ c ≤ 'Z' then some (c.toNat - 55)
  else decimalDigit? c

/-- What a character is worth as a digit of the radix. -/
def digitOf? (radix : Nat) (c : Char) : Option Nat :=
  (digitValue? c).filter (· < radix)

/-- The value of digits, the most significant first. -/
def digitsValue (radix : Nat) (ds : List Nat) : Nat := ds.foldl (fun n d => n * radix + d) 0

/-- A sign in front of a text: whether it is a minus, and the rest. -/
def splitSign : List Char → Bool × List Char
  | '-' :: cs => (true, cs)
  | '+' :: cs => (false, cs)
  | cs => (false, cs)

def withSign (negative : Bool) (n : Nat) : Int := if negative then -(n : Int) else n

/-- The letter that marks a radix after a zero, which may be one of any script. -/
def radixMark? : Nat → Option Char
  | 2 => some 'b'
  | 8 => some 'o'
  | 16 => some 'x'
  | _ => none

/-- The text after a mark of the radix and one underscore after it, if there is a mark. -/
def dropRadixMark (radix : Nat) : List Char → List Char
  | zero :: c :: cs =>
    if decimalDigit? zero = some 0 ∧ radixMark? radix = some c.toLower then
      match cs with
      | '_' :: cs => cs
      | cs => cs
    else zero :: c :: cs
  | cs => cs

/-- The digits at the front of a text, with single underscores between them, and what follows.
None where an underscore stands at an end of the digits or beside another. -/
def takeDigits (radix : Nat) : List Char → Option (List Nat × List Char)
  | [] => some ([], [])
  | c :: cs =>
    match digitOf? radix c with
    | none => if c = '_' then none else some ([], c :: cs)
    | some d =>
      match cs with
      | '_' :: cs =>
        (takeDigits radix cs).bind fun (ds, rest) => if ds = [] then none else some (d :: ds, rest)
      | cs => (takeDigits radix cs).map fun (ds, rest) => (d :: ds, rest)

/-- The digits of a run are counted before what follows them is looked at. -/
def readInteger (radix : Nat) (cs : List Char) : Except NumeralError Int :=
  let (negative, body) := splitSign (cs.dropWhile isNumberSpace)
  match takeDigits radix (dropRadixMark radix body) with
  | none => .error .invalid
  | some (ds, rest) =>
    if (radixMark? radix).isNone ∧ digitLimit < ds.length then .error (.tooManyDigits ds.length)
    else if ds = [] ∨ rest.dropWhile isNumberSpace ≠ [] then .error .invalid
    else .ok (withSign negative (digitsValue radix ds))

/-- How much of a refused text, in quoted form, a message shows. -/
def shownLength : Nat := 200

def invalidNumeralMessage (radix : Nat) (text : Text) : String :=
  s!"invalid literal for int() with base {radix}: " ++
    String.ofList ((quotedChars text).take shownLength)

/-- The message on the digit bound; a count is given for a numeral that was read. -/
def digitLimitMessage (count : Option Nat) : String :=
  s!"Exceeds the limit ({digitLimit} digits) for integer string conversion" ++
    (match count with
      | some n => s!": value has {n} digits"
      | none => "") ++
    "; use sys.set_int_max_str_digits() to increase the limit"

/-- An integer in decimal. -/
def decimal (n : Int) : String :=
  let digits := Nat.toDigits 10 n.natAbs
  String.ofList (if n < 0 then '-' :: digits else digits)

/-- An integer in decimal; none where it has more digits than the bound. -/
def decimal? (n : Int) : Option String :=
  if digitLimit < (Nat.toDigits 10 n.natAbs).length then none else some (decimal n)

theorem digitsValue_append_single (radix d : Nat) (ds : List Nat) :
    digitsValue radix (ds ++ [d]) = digitsValue radix ds * radix + d := by
  simp [digitsValue]

theorem splitSign_of_head? {cs : List Char} (hplus : cs.head? ≠ some '+')
    (hminus : cs.head? ≠ some '-') : splitSign cs = (false, cs) := by
  unfold splitSign
  split
  · exact absurd rfl hminus
  · exact absurd rfl hplus
  · rfl

end RubyTokens
