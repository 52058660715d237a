import RubyTokens.Number.Binary64

/-! The shortest decimal text of a binary number: the fewest digits that read back as the number,
and of those the nearest to it. The reals that round to a number form an interval around it; a grid
of decimals with `n` digits is tried for `n` = 1, 2, and so on, and on each grid only the two
neighbours of the number can lie in the interval. Seventeen digits always suffice. -/

namespace RubyTokens

/-- How many powers of ten a written number may be away from one before it takes an exponent, and
what is written after a whole number. -/
structure DecimalStyle where
  leastPositional : Int
  greatestPositional : Int
  wholeMark : String
  deriving DecidableEq, Repr

/-- Numbers from 0.0001 up to 10 ^ 16 have no exponent; a whole number ends in a zero decimal. -/
def DecimalStyle.standard : DecimalStyle := ⟨-4, 15, ".0"⟩

/-- The same without the zero decimal. -/
def DecimalStyle.bare : DecimalStyle := { DecimalStyle.standard with wholeMark := "" }

namespace Shortest

/-- The fraction `num / den` of four times the significand, with the ends of the interval around
it: numerators of the low end, the number and the high end over one denominator. -/
structure Interval where
  low : Nat
  value : Nat
  high : Nat
  den : Nat
  closed : Bool

def interval (m : Nat) (e : Int) : Interval :=
  let num := 1 <<< (e - 2).toNat
  let den := 1 <<< (2 - e).toNat
  let below := if m = 1 <<< 52 ∧ Binary64.leastExponent < e then 1 else 2
  ⟨(4 * m - below) * num, 4 * m * num, (4 * m + 2) * num, den, m % 2 == 0⟩

/-- Whether `digit * 10 ^ grid` lies in the interval. -/
def Interval.holds (i : Interval) (digit : Nat) (grid : Int) : Bool :=
  let x := digit * Nat.pow 10 grid.toNat * i.den
  let scale := Nat.pow 10 (-grid).toNat
  if i.closed then i.low * scale ≤ x && x ≤ i.high * scale
  else i.low * scale < x && x < i.high * scale

/-- The decimal of the grid that reads back: the nearer neighbour if both do, and of two equally
near the even one. -/
def Interval.onGrid (i : Interval) (grid : Int) : Option Nat :=
  let num := i.value * Nat.pow 10 (-grid).toNat
  let den := i.den * Nat.pow 10 grid.toNat
  let d := num / den
  match i.holds d grid, i.holds (d + 1) grid with
  | true, true => some (Binary64.roundHalfEven num den)
  | true, false => some d
  | false, true => some (d + 1)
  | false, false => none

/-- The number of digits before the point of `num / den`, if positive; otherwise minus the number
of zeros after it. -/
def pointOf (num den : Nat) : Int :=
  if den ≤ num then (Nat.toDigits 10 (num / den)).length
  else 1 - ((Nat.toDigits 10 ((den + num - 1) / num - 1)).length : Int)

/-- The digits tried from `count` digits on, `fuel` times. -/
def search (i : Interval) (point : Int) : (fuel count : Nat) → Nat × Int
  | 0, _ => (i.value / i.den, 0)
  | fuel + 1, count =>
    match i.onGrid (point - count) with
    | some d => (d, point - count)
    | none => search i point fuel (count + 1)

/-- Digits and the power of ten they are multiplied by, for a positive number. -/
def digits (m : Nat) (e : Int) : Nat × Int :=
  let i := interval m e
  search i (pointOf i.value i.den) 17 1

end Shortest

/-- The digits without the zeros at their end. -/
def dropTrailingZeros (ds : List Char) : List Char := (ds.reverse.dropWhile (· = '0')).reverse

/-- An exponent has a sign and two digits at least. -/
def exponentText (e : Int) : List Char :=
  let ds := Nat.toDigits 10 e.natAbs
  'e' :: (if e < 0 then '-' else '+') :: (if ds.length < 2 then '0' :: ds else ds)

/-- Digits `d₁d₂…` standing for `d₁.d₂… * 10 ^ exponent`. -/
def decimalText (style : DecimalStyle) (ds : List Char) (exponent : Int) : List Char :=
  if style.leastPositional ≤ exponent ∧ exponent ≤ style.greatestPositional then
    if exponent < 0 then '0' :: '.' :: List.replicate (-exponent - 1).toNat '0' ++ ds
    else
      let whole := exponent.toNat + 1
      if ds.length ≤ whole then
        ds ++ List.replicate (whole - ds.length) '0' ++ style.wholeMark.toList
      else ds.take whole ++ '.' :: ds.drop whole
  else
    match ds with
    | d :: e :: rest => d :: '.' :: e :: rest ++ exponentText exponent
    | ds => ds ++ exponentText exponent

def Binary64.text (style : DecimalStyle) : Binary64 → String
  | .nan => "nan"
  | .infinite negative => if negative then "-inf" else "inf"
  | .finite negative m e =>
    let body :=
      if m = 0 then '0' :: style.wholeMark.toList
      else
        let (d, grid) := Shortest.digits m e
        let ds := Nat.toDigits 10 d
        decimalText style (dropTrailingZeros ds) (grid + ds.length - 1)
    String.ofList (if negative then '-' :: body else body)

end RubyTokens
