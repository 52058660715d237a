import RubyTokens.Json.Value

/-! Reading JSON texts. The reader is strict: no comments, no comma before a closing bracket, no
control characters in a text, nothing after the value but white space. Beyond the standard it knows
the numbers `NaN`, `Infinity` and `-Infinity`. It reads from left to right and reports the first
thing that is wrong; an integer may be too long to be read, and values nested too deep. -/

namespace RubyTokens

inductive JsonError where
  | malformed
  | longInteger (digits : Nat)
  | deepArray
  | deepObject
  deriving DecidableEq, Repr

namespace Json

/-- How many arrays and objects may stand one inside the other. -/
def nestingLimit : Nat := 990

def skipBlanks (cs : List Char) : List Char :=
  cs.dropWhile fun c => c = ' ' || c = '\t' || c = '\n' || c = '\r'

/-! ### Texts -/

def hexValue? (c : Char) : Option Nat :=
  if c.toNat < 128 then digitOf? 16 c else none

/-- The number written by the four hexadecimal digits in front. -/
def takeHex4 : List Char → Option (Nat × List Char)
  | a :: b :: c :: d :: cs => do
    let ds ← [a, b, c, d].mapM hexValue?
    return (digitsValue 16 ds, cs)
  | _ => none

/-- Half of a pair that comes first. -/
def isHighHalf (n : Nat) : Bool := 0xD800 ≤ n && n < 0xDC00

def isLowHalf (n : Nat) : Bool := 0xDC00 ≤ n && n < 0xE000

/-- The code point of the escape after `\u`, which takes a second escape with it if the two are the
halves of a pair. An escape after half of a pair has to be well formed in any case. -/
def takeCodePoint (cs : List Char) : Option (CodePoint × List Char) := do
  let (n, rest) ← takeHex4 cs
  match rest with
  | '\\' :: 'u' :: more =>
    if isHighHalf n then
      let (low, behind) ← takeHex4 more
      if isLowHalf low then
        return (.ofNat (0x10000 + (n - 0xD800) * 0x400 + (low - 0xDC00)), behind)
    return (.ofNat n, rest)
  | _ => return (.ofNat n, rest)

/-- The character that a letter after a backslash stands for. -/
def escape? : Char → Option Char
  | '\x22' => some '\x22'
  | '\\' => some '\\'
  | '/' => some '/'
  | 'b' => some '\x08'
  | 'f' => some '\x0c'
  | 'n' => some '\n'
  | 'r' => some '\r'
  | 't' => some '\t'
  | _ => none

/-- The code points up to the closing quote. -/
def takeText : (fuel : Nat) → List Char → Option (List CodePoint × List Char)
  | 0, _ => none
  | _, [] => none
  | fuel + 1, c :: cs =>
    if c = doubleQuote then some ([], cs)
    else if c = '\\' then
      match cs with
      | 'u' :: more => do
        let (d, rest) ← takeCodePoint more
        let (ds, rest) ← takeText fuel rest
        return (d :: ds, rest)
      | e :: more => do
        let d ← escape? e
        let (ds, rest) ← takeText fuel more
        return (.char d :: ds, rest)
      | [] => none
    else if c.toNat < 0x20 then none
    else do
      let (ds, rest) ← takeText fuel cs
      return (.char c :: ds, rest)

/-! ### Numbers -/

/-- The digits at the front, and what follows them. -/
def takeAsciiDigits (cs : List Char) : List Char × List Char :=
  (cs.takeWhile Char.isDigit, cs.dropWhile Char.isDigit)

def asciiValue (ds : List Char) : Nat := digitsValue 10 (ds.map fun c => c.toNat - 48)

/-- A fraction: a point and one digit at least. -/
def takeFraction : List Char → Option (List Char × List Char)
  | '.' :: cs =>
    match takeAsciiDigits cs with
    | ([], _) => none
    | (ds, rest) => some (ds, rest)
  | _ => none

/-- An exponent: its letter, a sign or none, and one digit at least. -/
def takeExponent : List Char → Option (Int × List Char)
  | c :: cs =>
    if c = 'e' ∨ c = 'E' then
      let (negative, body) := splitSign cs
      match takeAsciiDigits body with
      | ([], _) => none
      | (ds, rest) => some (withSign negative (asciiValue ds), rest)
    else none
  | [] => none

/-- The integer part of a number: zero alone or digits that start with no zero. -/
def takeWhole : List Char → Option (List Char × List Char)
  | '0' :: cs => some (['0'], cs)
  | cs =>
    match takeAsciiDigits cs with
    | ([], _) => none
    | (ds, rest) => some (ds, rest)

/-- A number without its sign. -/
def takeNumber (negative : Bool) (cs : List Char) : Except JsonError (Json × List Char) :=
  match takeWhole cs with
  | none => .error .malformed
  | some (whole, rest) =>
    let fraction := takeFraction rest
    let afterFraction := (fraction.map (·.2)).getD rest
    let exponent := takeExponent afterFraction
    if fraction.isNone && exponent.isNone then
      if digitLimit < whole.length then .error (.longInteger whole.length)
      else .ok (integer (withSign negative (asciiValue whole)), rest)
    else
      let decimals := (fraction.map (·.1)).getD []
      let power := (exponent.map (·.1)).getD 0 - decimals.length
      .ok (float (.ofDecimal negative (asciiValue (whole ++ decimals)) power),
        (exponent.map (·.2)).getD afterFraction)

/-! ### Values -/

/-- What follows a word at the front of a text. -/
def dropWord (word : String) (cs : List Char) : Option (List Char) := dropList word.toList cs
where
  dropList : List Char → List Char → Option (List Char)
    | [], cs => some cs
    | w :: ws, c :: cs => if w = c then dropList ws cs else none
    | _ :: _, [] => none

/-- The values that are written as words. -/
def words : List (String × Json) :=
  [("null", null), ("true", bool true), ("false", bool false), ("NaN", float .nan),
    ("Infinity", float (.infinite false)), ("-Infinity", float (.infinite true))]

def takeWord (cs : List Char) : Option (Json × List Char) :=
  words.findSome? fun (word, value) => (dropWord word cs).map fun rest => (value, rest)

/-- A value that holds no other values. -/
def takeScalar (fuel : Nat) (cs : List Char) : Except JsonError (Json × List Char) :=
  match takeWord cs with
  | some found => .ok found
  | none =>
    match cs with
    | '-' :: rest => takeNumber true rest
    | c :: rest =>
      if c = doubleQuote then
        match takeText fuel rest with
        | some (ds, rest) => .ok (text ⟨ds⟩, rest)
        | none => .error .malformed
      else takeNumber false cs
    | [] => .error .malformed

mutual

/-- The value at the front of a text, and what follows it; `depth` values may yet be nested. -/
def takeValue : (fuel depth : Nat) → List Char → Except JsonError (Json × List Char)
  | 0, _, _ => .error .malformed
  | _ + 1, 0, '[' :: _ => .error .deepArray
  | fuel + 1, depth + 1, '[' :: cs =>
    match skipBlanks cs with
    | ']' :: rest => .ok (array [], rest)
    | rest => do
      let (items, rest) ← takeItems fuel depth rest
      return (array items, rest)
  | _ + 1, 0, '\x7b' :: _ => .error .deepObject
  | fuel + 1, depth + 1, '\x7b' :: cs =>
    match skipBlanks cs with
    | '\x7d' :: rest => .ok (object [], rest)
    | rest => do
      let (members, rest) ← takeMembers fuel depth [] rest
      return (object members, rest)
  | fuel + 1, _, cs => takeScalar fuel cs

/-- The items up to the closing bracket. -/
def takeItems : (fuel depth : Nat) → List Char → Except JsonError (List Json × List Char)
  | 0, _, _ => .error .malformed
  | fuel + 1, depth, cs => do
    let (item, rest) ← takeValue fuel depth cs
    match skipBlanks rest with
    | ',' :: rest => do
      let (items, rest) ← takeItems fuel depth (skipBlanks rest)
      return (item :: items, rest)
    | ']' :: rest => return ([item], rest)
    | _ => throw .malformed

/-- The members up to the closing brace, set one after the other. -/
def takeMembers : (fuel depth : Nat) → List (Text × Json) → List Char →
    Except JsonError (List (Text × Json) × List Char)
  | 0, _, _, _ => .error .malformed
  | fuel + 1, depth, members, cs => do
    match cs with
    | '\x22' :: cs =>
      let (key, rest) ← (takeText fuel cs).elim (throw .malformed) pure
      match skipBlanks rest with
      | ':' :: rest => do
        let (value, rest) ← takeValue fuel depth (skipBlanks rest)
        let members := setMember ⟨key⟩ value members
        match skipBlanks rest with
        | ',' :: rest => takeMembers fuel depth members (skipBlanks rest)
        | '\x7d' :: rest => return (members, rest)
        | _ => throw .malformed
      | _ => throw .malformed
    | _ => throw .malformed

end

/-- A character is read within two calls that spend fuel, so twice the length is enough. -/
def read (s : String) : Except JsonError Json := do
  let cs := s.toList
  let (value, rest) ← takeValue (2 * cs.length + 2) nestingLimit (skipBlanks cs)
  if skipBlanks rest = [] then return value else throw .malformed

end Json

end RubyTokens
