import RubyTokens.Text.Basic
import RubyTokens.Text.Printable

/-! Quoted form of a text: on one line, between quotes, with every unprintable character as an
escape, and halves of pairs too. The quotes are single ones unless the text holds a single quote and
no double quote, so that the reader sees as few escapes as possible. -/

namespace RubyTokens

def hexDigit (n : Nat) : Char :=
  if n < 10 then Char.ofNat (48 + n) else Char.ofNat (87 + n)

/-- The last `width` hexadecimal digits of a number, in lower case. -/
def hexDigits : (width : Nat) → (n : Nat) → List Char
  | 0, _ => []
  | width + 1, n => hexDigits width (n / 16) ++ [hexDigit (n % 16)]

/-- A code point as an escape with two, four or eight hexadecimal digits. -/
def codeEscape (n : Nat) : List Char :=
  if n < 0x100 then '\\' :: 'x' :: hexDigits 2 n
  else if n < 0x10000 then '\\' :: 'u' :: hexDigits 4 n
  else '\\' :: 'U' :: hexDigits 8 n

def singleQuote : Char := '\x27'

def doubleQuote : Char := '\x22'

/-- How a character is written between two quotes `q`. -/
def quotedChar (q c : Char) : List Char :=
  if c = q ∨ c = '\\' then ['\\', c]
  else if c = '\n' then ['\\', 'n']
  else if c = '\r' then ['\\', 'r']
  else if c = '\t' then ['\\', 't']
  else if isPrintable c then [c]
  else codeEscape c.toNat

def quotedPoint (q : Char) : CodePoint → List Char
  | .char c => quotedChar q c
  | half => codeEscape half.toNat

/-- The quote that a text is written in. -/
def quoteOf (t : Text) : Char :=
  if .char singleQuote ∈ t.points ∧ .char doubleQuote ∉ t.points then doubleQuote else singleQuote

def quotedChars (t : Text) : List Char :=
  let q := quoteOf t
  q :: t.points.flatMap (quotedPoint q) ++ [q]

def quoted (t : Text) : String := String.ofList (quotedChars t)

/-- The message on a text that has no bytes, which shows the half if it stands alone. -/
def Text.Halves.message (h : Halves) : String :=
  let place :=
    if h.more = 0 then
      let escape := String.ofList (codeEscape (CodePoint.half h.first).toNat)
      "character '" ++ escape ++ s!"' in position {h.position}"
    else s!"characters in position {h.position}-{h.position + h.more}"
  "'utf-8' codec can't encode " ++ place ++ ": surrogates not allowed"

end RubyTokens
