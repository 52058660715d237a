import Mathlib.Tactic.SplitIfs
import RubyTokens.Lexeme.Dump

/-! Dumps of one row. Characters that need no escape are read from a JSON text as they are, and
items are read one behind the other, so each such text is the text of a lexeme of some dump. -/

namespace RubyTokens

namespace Json

/-- Whether the character stands for itself in a JSON text. -/
def isPlain (c : Char) : Bool := c ≠ doubleQuote && c ≠ '\\' && 0x20 ≤ c.toNat

variable {fuel depth : Nat} {cs rest rest' : List Char} {item : Json} {items : List Json}

/-- Plain characters are read up to the closing quote. -/
theorem takeText_plain (h : cs.all isPlain = true) (hf : cs.length < fuel) (rest : List Char) :
    takeText fuel (cs ++ doubleQuote :: rest) = some (cs.map .char, rest) := by
  induction cs generalizing fuel with
  | nil =>
    obtain ⟨fuel, rfl⟩ := Nat.exists_eq_add_of_lt hf
    rfl
  | cons c cs ih =>
    obtain ⟨fuel, rfl⟩ : ∃ k, fuel = k + 1 := ⟨fuel - 1, by omega⟩
    rw [List.all_cons, Bool.and_eq_true] at h
    rw [List.length_cons, Nat.add_lt_add_iff_right] at hf
    obtain ⟨⟨hquote, hescape⟩, hcontrol⟩ : (c ≠ doubleQuote ∧ c ≠ '\\') ∧ ¬ c.toNat < 0x20 := by
      simpa [isPlain] using h.1
    rw [List.cons_append, takeText.eq_def]
    dsimp only
    rw [if_neg hquote, if_neg hescape, if_neg hcontrol, ih h.2 hf]
    rfl

theorem takeScalar_text (h : cs.all isPlain = true) (hf : cs.length < fuel) (rest : List Char) :
    takeScalar fuel (doubleQuote :: (cs ++ doubleQuote :: rest)) =
      .ok (text ⟨cs.map .char⟩, rest) := by
  have hword : takeWord (doubleQuote :: (cs ++ doubleQuote :: rest)) = none := rfl
  have htext := takeText_plain h hf rest
  have hquote : doubleQuote ≠ '-' := by decide
  rw [takeScalar, hword]
  · dsimp only
    rw [if_pos rfl, htext]
  · exact hquote

theorem takeItems_last (h : takeValue fuel depth cs = .ok (item, ']' :: rest)) :
    takeItems (fuel + 1) depth cs = .ok ([item], rest) := by
  rw [takeItems, h]
  rfl

theorem takeItems_cons (h : takeValue fuel depth cs = .ok (item, ',' :: rest))
    (hblank : skipBlanks rest = rest) (hrest : takeItems fuel depth rest = .ok (items, rest')) :
    takeItems (fuel + 1) depth cs = .ok (item :: items, rest') := by
  rw [takeItems, h]
  change (takeItems fuel depth (skipBlanks rest) >>= fun taken =>
    .ok (item :: taken.1, taken.2)) = _
  rw [hblank, hrest]
  rfl

theorem takeValue_array (hblank : skipBlanks cs = cs) (hitems : cs.head? ≠ some ']')
    (h : takeItems fuel depth cs = .ok (items, rest)) :
    takeValue (fuel + 1) (depth + 1) ('[' :: cs) = .ok (array items, rest) := by
  rw [takeValue, hblank]
  split
  · exact absurd rfl hitems
  · rw [h]
    rfl

theorem takeValue_scalar (hopen : cs.head? ≠ some '[') (hbrace : cs.head? ≠ some '\x7b') :
    takeValue (fuel + 1) depth cs = takeScalar fuel cs := by
  rw [takeValue]
  all_goals
    intros
    subst_vars
    first | exact hopen rfl | exact hbrace rfl

/-! ### A row at the beginning of the source -/

/-- The text of an array with the row of a lexeme: its kind and text stand at the beginning. -/
def rowChars (kind cs : List Char) : List Char :=
  '[' :: '[' :: '[' :: '1' :: ',' :: '0' :: ']' :: ',' :: doubleQuote :: (kind ++ doubleQuote ::
    ',' :: doubleQuote :: (cs ++ doubleQuote :: ',' :: '1' :: ']' :: ']' :: []))

theorem return_notMem_of_isPlain (h : cs.all isPlain = true) : '\r' ∉ cs := fun hmem =>
  absurd (List.all_eq_true.1 h _ hmem) (by decide)

theorem return_notMem_rowChars {kind : List Char} (hkind : kind.all isPlain = true)
    (hcs : cs.all isPlain = true) : '\r' ∉ rowChars kind cs := by
  simp [rowChars, doubleQuote, return_notMem_of_isPlain hkind, return_notMem_of_isPlain hcs]

theorem takeValue_origin (fuel depth : Nat) (rest : List Char) :
    takeValue (fuel + 4) (depth + 1) ('[' :: '1' :: ',' :: '0' :: ']' :: rest) =
      .ok (array [integer 1, integer 0], rest) := by
  have hone : takeValue (fuel + 2) depth ('1' :: ',' :: '0' :: ']' :: rest) =
      .ok (integer 1, ',' :: '0' :: ']' :: rest) := takeValue_scalar (by simp) (by simp)
  have hzero : takeValue (fuel + 1) depth ('0' :: ']' :: rest) = .ok (integer 0, ']' :: rest) :=
    takeValue_scalar (by simp) (by simp)
  exact takeValue_array rfl (by simp) (takeItems_cons hone rfl (takeItems_last hzero))

theorem takeValue_text (fuel depth : Nat) (h : cs.all isPlain = true) (hf : cs.length < fuel)
    (rest : List Char) : takeValue (fuel + 1) depth (doubleQuote :: (cs ++ doubleQuote :: rest)) =
      .ok (text ⟨cs.map .char⟩, rest) :=
  (takeValue_scalar (by simp [doubleQuote]) (by simp [doubleQuote])).trans
    (takeScalar_text h hf rest)

theorem read_rowChars {kind : List Char} (hkind : kind.all isPlain = true)
    (hcs : cs.all isPlain = true) : read (String.ofList (rowChars kind cs)) =
      .ok (array [array [array [integer 1, integer 0], text ⟨kind.map .char⟩,
        text ⟨cs.map .char⟩, integer 1]]) := by
  obtain ⟨fuel, hfuel, hlonger⟩ : ∃ fuel, 2 * (rowChars kind cs).length + 2 = fuel + 10 ∧
      kind.length < fuel ∧ cs.length < fuel := by
    refine ⟨2 * (rowChars kind cs).length - 8, ?_⟩
    simp only [rowChars, List.length_cons, List.length_append, List.length_nil]
    omega
  have hstate : takeItems (fuel + 4) 988 ['1', ']', ']'] = .ok ([integer 1], [']']) :=
    takeItems_last (takeValue_scalar (by simp) (by simp))
  have htext := takeItems_cons (takeValue_text (fuel + 3) 988 hcs (by omega) _) rfl hstate
  have hkindText := takeItems_cons (takeValue_text (fuel + 4) 988 hkind (by omega) _) rfl htext
  have hrow := takeValue_array rfl (by simp)
    (takeItems_cons (takeValue_origin (fuel + 2) 987 _) rfl hkindText)
  have hvalue := takeValue_array rfl (by simp) (takeItems_last hrow)
  rw [read, String.toList_ofList, hfuel]
  have hblank : skipBlanks (rowChars kind cs) = rowChars kind cs := rfl
  rw [hblank]
  exact congrArg (· >>= _) hvalue

end Json

end RubyTokens
