import RubyTokens.Text.Pieces

/-! Paths. A path is read as its components: empty ones and single dots say nothing and are left
out, double dots are kept. What is printed is the path in this form. -/

namespace RubyTokens

/-- A path from `root`, which is empty for a relative path. -/
structure Path where
  root : String
  parts : List String
  deriving DecidableEq, Repr

namespace Path

/-- Two slashes in front are a root of their own; any other number of slashes is one. -/
def rootOf : List Char → String
  | '/' :: '/' :: '/' :: _ => "/"
  | '/' :: '/' :: _ => "//"
  | '/' :: _ => "/"
  | _ => ""

def ofString (s : String) : Path where
  root := rootOf s.toList
  parts := ((pieces '/' s.toList).map String.ofList).filter fun p => p ≠ "" ∧ p ≠ "."

def text (p : Path) : String :=
  if p.root = "" ∧ p.parts = [] then "." else p.root ++ String.intercalate "/" p.parts

/-- The path of something below a directory. -/
def below (p : Path) (parts : List String) : Path := { p with parts := p.parts ++ parts }

end Path

end RubyTokens
