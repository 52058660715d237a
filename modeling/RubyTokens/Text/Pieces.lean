/-! Lists cut into pieces at a separator. There is one piece more than there are separators, and a
piece may be empty. -/

namespace RubyTokens

/-- The pieces before, between and behind the separators. -/
def pieces {α : Type} [DecidableEq α] (separator : α) : List α → List (List α)
  | [] => [[]]
  | x :: xs =>
    if x = separator then [] :: pieces separator xs
    else match pieces separator xs with
      | [] => [[x]]
      | piece :: rest => (x :: piece) :: rest

end RubyTokens
