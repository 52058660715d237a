import RubyTokens.Conversion.Profile
import RubyTokens.Conversion.Vocabulary

/-! What is done with a lexeme, as far as its kind decides it. Kinds that are dropped, carried over
or open a list of words are looked for first, so the kind of character literals that the options
name counts only if it is none of these. -/

namespace RubyTokens

inductive Role where
  | dropped
  | direct (kind : TokenKind)
  | wordList (kind : TokenKind)
  | character
  | known (kind : LexemeKind)
  | unknown
  deriving DecidableEq, Repr

/-- The role of a kind that is known. -/
def Role.ofKind (k : LexemeKind) : Role :=
  if k.isDropped then .dropped
  else match k.direct?, k.wordList? with
    | some t, _ => .direct t
    | none, some t => .wordList t
    | none, none => .known k

/-- The role of a lexeme of the named kind. -/
def Role.of (options : Options) (kind : Text) : Role :=
  match (LexemeKind.ofText? kind).map Role.ofKind with
  | some (.known k) => if kind = options.characterKind then .character else .known k
  | some role => role
  | none => if kind = options.characterKind then .character else .unknown

theorem Role.of_name (options : Options) (k : LexemeKind) (h : k.name ≠ options.characterKind) :
    Role.of options k.name = Role.ofKind k := by
  have h : (k.name : Text) ≠ options.characterKind := fun e => h (Text.ofString_inj e)
  simp only [Role.of, LexemeKind.ofText?_name, Option.map_some]
  split
  next j hj => rw [if_neg h, ← Option.some.inj hj]
  next r hr => exact (Option.some.inj hr).symm
  next hn => cases hn

end RubyTokens
