import RubyTokens.Text.Blank
import RubyTokens.Text.Pieces
import RubyTokens.Text.Quoted

/-! Lexer states. The lexer of Ruby is, after each lexeme, in a state that decides what the next
characters may be: a set of thirteen flags. A state is written as the names of its flags with bars
between them. Bits beyond the thirteen flags are kept and have no name. -/

namespace RubyTokens

/-- The flags as bits of a number, the first flag the lowest bit. -/
structure State where
  bits : Nat
  deriving DecidableEq, Repr

namespace State

/-- The names of the flags, from the lowest bit on. -/
def flagNames : List String :=
  ["BEG", "END", "ENDARG", "ENDFN", "ARG", "CMDARG", "MID", "FNAME", "DOT", "CLASS", "LABEL",
    "LABELED", "FITEM"]

def flagCount : Nat := flagNames.length

def none : State := ⟨0⟩

/-- An expression may begin. -/
def beg : State := ⟨1 <<< 0⟩

/-- An expression has ended. -/
def ended : State := ⟨1 <<< 1⟩

def endArg : State := ⟨1 <<< 2⟩

def arg : State := ⟨1 <<< 4⟩

def cmdArg : State := ⟨1 <<< 5⟩

def mid : State := ⟨1 <<< 6⟩

def fname : State := ⟨1 <<< 7⟩

def classDef : State := ⟨1 <<< 9⟩

def label : State := ⟨1 <<< 10⟩

def union (a b : State) : State := ⟨a.bits ||| b.bits⟩

def hasFlag (s : State) (i : Nat) : Bool := s.bits.testBit i

def hasBegin (s : State) : Bool := s.hasFlag 0

/-- An integer as a state. A negative number counts down from the least power of two that makes it
fit, and from all thirteen flags at least. -/
def ofInt (n : Int) : State :=
  if 0 ≤ n then ⟨n.toNat⟩
  else if -(1 <<< flagCount : Nat) ≤ n then ⟨(n + (1 <<< flagCount : Nat)).toNat⟩
  else ⟨(n + (1 <<< (n.natAbs.log2 + 1) : Nat)).toNat⟩

/-- The state of one name, which is a flag's or that of the empty state. -/
def ofName? (name : String) : Option State :=
  if name = "NONE" then some none
  else (flagNames.findIdx? (· = name)).map fun i => ⟨1 <<< i⟩

/-- What is left of a part when the space around it and then one `EXPR_` in front are dropped. -/
def nameOfPart (part : Text) : String :=
  let name := trimBy isSpace part.chars
  match name with
  | 'E' :: 'X' :: 'P' :: 'R' :: '_' :: rest => String.ofList rest
  | _ => String.ofList name

/-- The union of the states that the parts name, or the first part that is no name. -/
def ofParts : List Text → State → Except Text State
  | [], s => .ok s
  | part :: parts, s =>
    match ofName? (nameOfPart part) with
    | some t => ofParts parts (s.union t)
    | .none => .error part

/-- Reads a state from its text, whose parts stand between bars. -/
def parse (text : Text) : Except Text State :=
  ofParts ((pieces (.char '|') text.points).map Text.mk) none

/-- The names of the flags that are set. -/
def names (s : State) : List String :=
  (List.range flagCount).filterMap fun i => if s.hasFlag i then flagNames[i]? else .none

def text (s : State) : String :=
  if s.bits = 0 then "NONE" else String.intercalate "|" s.names

@[simp] theorem bits_union (a b : State) : (a.union b).bits = a.bits ||| b.bits := rfl

theorem hasFlag_union (a b : State) (i : Nat) :
    (a.union b).hasFlag i = (a.hasFlag i || b.hasFlag i) := by
  simp [hasFlag]

theorem ofInt_natCast (n : Nat) : ofInt n = ⟨n⟩ := by simp [ofInt]

end State

end RubyTokens
