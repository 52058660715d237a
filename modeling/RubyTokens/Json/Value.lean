import RubyTokens.Number.Integer
import RubyTokens.Number.Shortest

/-! JSON values. A number without a fraction and an exponent is an integer of any size, every other
number is a binary one: `1` and `1.0` are different values. The members of an object keep their
order, and a key that is written twice keeps the place of the first and the value of the last. -/

namespace RubyTokens

inductive Json where
  | null
  | bool (value : Bool)
  | integer (value : Int)
  | float (value : Binary64)
  | text (value : Text)
  | array (items : List Json)
  | object (members : List (Text × Json))

namespace Json

/-- Sets the value of a key. -/
def setMember (key : Text) (value : Json) : List (Text × Json) → List (Text × Json)
  | [] => [(key, value)]
  | (k, v) :: ms => if k = key then (key, value) :: ms else (k, v) :: setMember key value ms

def member? (key : Text) : Json → Option Json
  | object ms => ms.lookup key
  | _ => none

mutual

/-- How a value is shown in a message. -/
def display : Json → String
  | null => "None"
  | bool true => "True"
  | bool false => "False"
  | integer n => decimal n
  | float x => x.text .standard
  | text s => quoted s
  | array items => "[" ++ String.intercalate ", " (displayItems items) ++ "]"
  | object ms => "\x7b" ++ String.intercalate ", " (displayMembers ms) ++ "\x7d"

def displayItems : List Json → List String
  | [] => []
  | v :: vs => v.display :: displayItems vs

def displayMembers : List (Text × Json) → List String
  | [] => []
  | (k, v) :: ms => (quoted k ++ ": " ++ v.display) :: displayMembers ms

end

/-- A value as plain text: a text stands for itself. -/
def plain : Json → Text
  | text s => s
  | v => v.display

/-- What a value consists of when it is taken apart: items, code points or keys. -/
def parts? : Json → Option (List Json)
  | array items => some items
  | text s => some (s.points.map fun p => text ⟨[p]⟩)
  | object ms => some (ms.map fun m => text m.1)
  | _ => none

end Json

end RubyTokens
