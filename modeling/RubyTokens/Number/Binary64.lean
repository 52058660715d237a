/-! Binary floating-point numbers of 64 bits, as exact values. A finite number is a sign and a
significand times a power of two; the significand has 53 bits at most and the exponent lies between
-1074 and 971. Rounding takes an exact quotient of natural numbers to the nearest number, and of
two equally near to the one with the even significand; a quotient beyond the greatest number has
no finite result. -/

namespace RubyTokens

/-- The value `significand * 2 ^ exponent` with a sign, an infinity, or no number. A finite number
is canonical: its significand has 53 bits, or its exponent is the least one. -/
inductive Binary64 where
  | finite (negative : Bool) (significand : Nat) (exponent : Int)
  | infinite (negative : Bool)
  | nan
  deriving DecidableEq, Repr

namespace Binary64

def leastExponent : Int := -1074

def greatestExponent : Int := 971

def zero (negative : Bool) : Binary64 := .finite negative 0 leastExponent

/-- The quotient `num / den`, divided by a power of two, as a fraction of natural numbers. -/
def scaleDown (num den : Nat) (exponent : Int) : Nat × Nat :=
  if 0 ≤ exponent then (num, den <<< exponent.toNat) else (num <<< (-exponent).toNat, den)

/-- The nearest integer to a fraction; a half goes to the even neighbour. -/
def roundHalfEven (num den : Nat) : Nat :=
  let q := num / den
  let r := num % den
  if 2 * r < den ∨ (2 * r = den ∧ q % 2 = 0) then q else q + 1

/-- The exponent at which `num / den` has an integer part of 53 bits, or the least exponent. -/
def exponentOf (num den : Nat) : Int :=
  let e : Int := (num.log2 : Int) - den.log2 - 52
  let (n, d) := scaleDown num den e
  max leastExponent (if d <<< 52 ≤ n then e else e - 1)

/-- The nearest number to `num / den`, where `den` is not zero. -/
def ofQuotient (negative : Bool) (num den : Nat) : Binary64 :=
  if num = 0 then zero negative
  else
    let e := exponentOf num den
    let (n, d) := scaleDown num den e
    let m := roundHalfEven n d
    let (m, e) := if m = 1 <<< 53 then (1 <<< 52, e + 1) else (m, e)
    if greatestExponent < e then .infinite negative else .finite negative m e

/-- The nearest number to `digits * 10 ^ exponent`, without powers of ten far outside the range. -/
def ofDecimal (negative : Bool) (digits : Nat) (exponent : Int) : Binary64 :=
  if digits = 0 then zero negative
  else
    let magnitude : Int := (Nat.toDigits 10 digits).length + exponent
    if 400 < magnitude then .infinite negative
    else if magnitude < -400 then zero negative
    else if 0 ≤ exponent then ofQuotient negative (digits * Nat.pow 10 exponent.toNat) 1
    else ofQuotient negative digits (Nat.pow 10 (-exponent).toNat)

/-- The integer between the number and zero that is nearest to the number. -/
def truncate? : Binary64 → Option Int
  | .finite negative m e =>
    let n := if 0 ≤ e then m <<< e.toNat else m >>> (-e).toNat
    some (if negative then -(n : Int) else n)
  | _ => none

def isInfinite : Binary64 → Bool
  | .infinite _ => true
  | _ => false

/-- The interchange encoding: sign, eleven bits of exponent, fifty-two bits of significand. -/
def toBits : Binary64 → Nat
  | .finite negative m e =>
    let sign := if negative then 1 <<< 63 else 0
    if m < 1 <<< 52 then sign + m
    else sign + (e - leastExponent + 1).toNat <<< 52 + (m - 1 <<< 52)
  | .infinite negative => (if negative then 1 <<< 63 else 0) + 2047 <<< 52
  | .nan => 2047 <<< 52 + 1 <<< 51

end Binary64

end RubyTokens
