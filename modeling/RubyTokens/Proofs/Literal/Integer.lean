import RubyTokens.Proofs.Literal.Refusal
import RubyTokens.Proofs.Literal.Separators
import RubyTokens.Proofs.Number.Numeral
import RubyTokens.Proofs.Text.LowerCase

/-! Integer literals. A program writes an integer as a sign, a mark of its radix and digits in ASCII
with single underscores between them; a decimal needs no mark, and without one it does not begin with
a zero. Each such literal is read, with the value of its digits by their places, as long as a decimal
is not too long.
The other way round more is read than a program may write. What stands behind the sign and the mark
is handed on, less its underscores, to the reading of numerals in general, and this takes spaces
around the digits, a sign and a mark of its own, and digits of every script. The texts that are read
for one of these reasons are told exactly. -/

namespace RubyTokens

open IntegerLiteral (dropUnderscores isWellSeparated splitRadix)

/-! ### How integers are spelled -/

/-- What may stand before the digits of each radix. -/
def radixMarks : List (ℕ × List Char) :=
  [(16, ['0', 'x']), (16, ['0', 'X']), (2, ['0', 'b']), (2, ['0', 'B']), (8, ['0', 'o']),
    (8, ['0', 'O']), (8, ['0', '_']), (8, ['0']), (10, ['0', 'd']), (10, ['0', 'D'])]

/-- Whether the mark makes the digits those of the radix. Without a mark they are decimal, and begin
with a zero only if they are nothing else. -/
def Marked (radix : ℕ) (mark digits : List Char) : Prop :=
  (radix, mark) ∈ radixMarks ∨
    radix = 10 ∧ mark = [] ∧ (digits = ['0'] ∨ digits.head? ≠ some '0')

/-- An integer as a program may write it. -/
structure IntegerSpelling where
  sign : Sign
  radix : ℕ
  mark : List Char
  digits : List Char
  marked : Marked radix mark digits
  separated : Separated (IsDigit radix) digits

namespace IntegerSpelling

def chars (l : IntegerSpelling) : List Char := l.sign.chars ++ (l.mark ++ l.digits)

def digitCount (l : IntegerSpelling) : ℕ := (dropUnderscores l.digits).length

def value (l : IntegerSpelling) : ℤ := l.sign.factor * positionalValue l.radix l.digits

end IntegerSpelling

/-- Whether a program may write the text as an integer. -/
def IsSpelledInteger (cs : List Char) : Prop := ∃ l : IntegerSpelling, l.chars = cs

variable {radix : ℕ} {mark digits cs : List Char} {c d : Char}

theorem Marked.radix_cases (h : Marked radix mark digits) :
    radix = 2 ∨ radix = 8 ∨ radix = 10 ∨ radix = 16 := by
  rcases h with h | ⟨rfl, -⟩
  · have hall : ∀ m ∈ radixMarks, m.1 = 2 ∨ m.1 = 8 ∨ m.1 = 10 ∨ m.1 = 16 := by decide
    exact hall _ h
  · decide

theorem Marked.radix_le (h : Marked radix mark digits) : radix ≤ 16 := by
  have := h.radix_cases
  omega

theorem Marked.isNumeric (h : Marked radix mark digits) : ∀ c ∈ mark, IsNumeric c := by
  rcases h with h | ⟨-, rfl, -⟩
  · have hall : ∀ m ∈ radixMarks, m.2.all (IsNumeric ·) = true := by decide
    exact forall_mem_chars (hall _ h)
  · simp

theorem not_isDigit_underscore (hr : radix ≤ 16) : ¬ IsDigit radix '_' := by
  have : digitWorth '_' = 16 := by decide
  rw [IsDigit, this]
  omega

/-! ### Characters of numerals -/

theorem isNumeric_of_isSome_digitOf? (hr : radix ≤ 16) (h : (digitOf? radix c).isSome = true) :
    IsNumeric c := by
  obtain ⟨d, hd⟩ := Option.isSome_iff_exists.1 h
  obtain ⟨hv, hlt⟩ := digitOf?_eq_some_iff.1 hd
  by_cases hc : c.toNat < 128
  · have hletters : digitValue? 'i' = some 18 ∧ digitValue? 'k' = some 20 := by decide
    refine .inl ⟨hc, ?_, ?_⟩
    · rintro rfl
      have := Option.some.inj (hletters.1.symm.trans hv)
      omega
    · rintro rfl
      have := Option.some.inj (hletters.2.symm.trans hv)
      omega
  · rw [digitValue?_of_not_ascii hc] at hv
    exact .inr (.inr (by rw [hv]; rfl))

theorem Numeral.isNumeric (hr : radix ≤ 16) (n : Numeral radix) : ∀ c ∈ n.chars, IsNumeric c := by
  intro c hc
  have hsigns : IsNumeric '+' ∧ IsNumeric '-' := by decide
  simp only [chars, List.mem_append] at hc
  rcases hc with hc | hc | hc | hc | hc
  · exact .inr (.inl (n.lead_space c hc))
  · rcases Sign.mem_chars hc with rfl | rfl
    · exact hsigns.1
    · exact hsigns.2
  · rcases n.isMark with hm | ⟨zero, letter, hm, hzero, hletter⟩
    · rw [hm] at hc
      cases hc
    · rw [hm, List.mem_pair] at hc
      rcases hc with rfl | rfl
      · exact .inr (.inr (by rw [hzero]; rfl))
      · have hmarks : ∀ x ∈ ['b', 'o', 'x'], x.toNat < 128 ∧ 'i'.toLower ≠ x ∧ 'k'.toLower ≠ x :=
          forall_mem_chars (by decide)
        have hmem : c.toLower ∈ ['b', 'o', 'x'] := by
          rcases cases_of_radixMark? hletter with ⟨-, h⟩ | ⟨-, h⟩ | ⟨-, h⟩ <;> rw [h] <;> decide
        obtain ⟨hascii, hi, hk⟩ := hmarks _ hmem
        refine .inl ⟨?_, fun heq => hi (by rw [heq]), fun heq => hk (by rw [heq])⟩
        by_contra hc
        rw [toLower_of_not_ascii hc] at hascii
        exact hc hascii
  · exact isNumeric_of_isSome_digitOf? hr (n.isSome_digitOf? c hc)
  · exact .inr (.inl (n.trail_space c hc))

/-- A numeral does not begin with a letter or an underscore that makes a mark with a zero. -/
theorem Numeral.head_not_mark (n : Numeral 8) :
    ∀ c ∈ n.chars.head?, c.toLower ∉ ['x', 'b', 'o', 'd', '_'] := by
  intro c hc
  have hlower : isNumberSpace c.toLower = true ∨ c.toLower = '+' ∨ c.toLower = '-' ∨
      (digitOf? 8 c.toLower).isSome = true := by
    rcases n.cases_of_head? c hc with h | rfl | rfl | h
    · exact .inl (by rw [isNumberSpace_toLower, h])
    · exact .inr (.inl (by decide))
    · exact .inr (.inr (.inl (by decide)))
    · exact .inr (.inr (.inr (by rw [digitOf?_toLower, h])))
  have hnot : ∀ x ∈ ['x', 'b', 'o', 'd', '_'], ¬ (isNumberSpace x = true ∨ x = '+' ∨ x = '-' ∨
      (digitOf? 8 x).isSome = true) := forall_mem_chars (by decide)
  exact fun hmem => hnot _ hmem hlower

/-! ### Marks and lower case -/

/-- What stands behind a mark: the text is not empty and numeric, and in the radix eight, whose mark
may be a lone zero, its beginning does not make another mark with the zero. -/
structure Fits (radix : ℕ) (digits : List Char) : Prop where
  ne_nil : digits ≠ []
  isNumeric : ∀ c ∈ digits, IsNumeric c
  head_not_mark : radix = 8 → ∀ c ∈ digits.head?, c.toLower ∉ ['x', 'b', 'o', 'd', '_']

/-- What is in front of the digits in a text in lower case is numeric. -/
theorem exists_mark_of_splitRadix (cs : List Char) :
    ∃ mark, cs = mark ++ (splitRadix cs).2 ∧ ∀ c ∈ mark, IsNumeric c := by
  unfold splitRadix
  split
  · exact ⟨['0', 'x'], rfl, forall_mem_chars (by decide)⟩
  · exact ⟨['0', 'b'], rfl, forall_mem_chars (by decide)⟩
  · exact ⟨['0', 'o'], rfl, forall_mem_chars (by decide)⟩
  · exact ⟨['0', 'd'], rfl, forall_mem_chars (by decide)⟩
  · exact ⟨['0', '_'], rfl, forall_mem_chars (by decide)⟩
  · exact ⟨['0'], rfl, forall_mem_chars (by decide)⟩
  · exact ⟨[], rfl, by simp⟩

/-- A mark of two characters in lower case is one of a zero and the other character. -/
theorem exists_mark_of_toLower {rest : List Char} (h : cs.map Char.toLower = '0' :: d :: rest)
    (hmarks : (radix, ['0', d]) ∈ radixMarks ∧ (radix, ['0', d.toUpper]) ∈ radixMarks) :
    ∃ mark digits, cs = mark ++ digits ∧ digits.map Char.toLower = rest ∧
      Marked radix mark digits := by
  obtain ⟨zero, tail, rfl, hzero, htail⟩ := List.map_eq_cons_iff.1 h
  obtain ⟨letter, digits, rfl, hletter, hdigits⟩ := List.map_eq_cons_iff.1 htail
  obtain rfl := eq_of_toLower hzero (by decide)
  refine ⟨['0', letter], digits, rfl, hdigits, .inl ?_⟩
  rcases eq_or_eq_toUpper hletter with rfl | rfl
  · exact hmarks.1
  · exact hmarks.2

/-- The radix and the digits of a text in lower case come from a mark. -/
theorem exists_of_splitRadix (cs : List Char) : ∃ mark digits, cs = mark ++ digits ∧
    digits.map Char.toLower = (splitRadix (cs.map Char.toLower)).2 ∧
      Marked (splitRadix (cs.map Char.toLower)).1 mark digits := by
  unfold splitRadix
  split
  next h => exact exists_mark_of_toLower h (by dsimp only; decide)
  next h => exact exists_mark_of_toLower h (by dsimp only; decide)
  next h => exact exists_mark_of_toLower h (by dsimp only; decide)
  next h => exact exists_mark_of_toLower h (by dsimp only; decide)
  next h => exact exists_mark_of_toLower h (by dsimp only; decide)
  next h =>
    obtain ⟨zero, digits, rfl, hzero, hdigits⟩ := List.map_eq_cons_iff.1 h
    obtain rfl := eq_of_toLower hzero (by decide)
    exact ⟨['0'], digits, rfl, hdigits, .inl (by dsimp only; decide)⟩
  next hoctal =>
    refine ⟨[], cs, rfl, rfl, .inr ⟨rfl, rfl, ?_⟩⟩
    by_contra! hdigits
    obtain ⟨hne, hhead⟩ := hdigits
    obtain ⟨tail, rfl⟩ := List.head?_eq_some_iff.1 hhead
    cases tail with
    | nil => exact hne rfl
    | cons c tail => exact hoctal c.toLower (tail.map Char.toLower) rfl

/-- Behind a mark the digits are found, in lower case. -/
theorem splitRadix_of_marked (h : Marked radix mark digits) (hfits : Fits radix digits) :
    splitRadix ((mark ++ digits).map Char.toLower) = (radix, digits.map Char.toLower) := by
  obtain ⟨first, rest, rfl⟩ := List.exists_cons_of_ne_nil hfits.ne_nil
  rcases h with h | ⟨rfl, rfl, hzero⟩
  · simp only [radixMarks, List.mem_cons, Prod.mk.injEq, List.not_mem_nil, or_false] at h
    rcases h with ⟨rfl, rfl⟩ | ⟨rfl, rfl⟩ | ⟨rfl, rfl⟩ | ⟨rfl, rfl⟩ | ⟨rfl, rfl⟩ | ⟨rfl, rfl⟩ |
      ⟨rfl, rfl⟩ | ⟨rfl, rfl⟩ | ⟨rfl, rfl⟩ | ⟨rfl, rfl⟩
    case inr.inr.inr.inr.inr.inr.inr.inl =>
      -- a lone zero: what follows it would be part of a longer mark otherwise
      have hnot := hfits.head_not_mark rfl first rfl
      simp only [List.mem_cons, List.not_mem_nil, or_false, not_or] at hnot
      simp [splitRadix, hnot]
    all_goals rfl
  · rcases hzero with hzero | hzero
    · rw [hzero]
      rfl
    · have hne : first.toLower ≠ '0' := fun heq => hzero (by
        rw [eq_of_toLower heq (by decide)]
        rfl)
      simp [splitRadix, hne]

theorem splitRadix_lowerCase (h : Marked radix mark digits) (hfits : Fits radix digits) :
    splitRadix (lowerCase (mark ++ digits)) = (radix, digits.map Char.toLower) := by
  have hnumeric : ∀ c ∈ mark ++ digits, IsNumeric c := by
    intro c hc
    exact (List.mem_append.1 hc).elim (h.isNumeric c) (hfits.isNumeric c)
  rw [lowerCase_of_isNumeric (.inl hnumeric), splitRadix_of_marked h hfits]

theorem splitRadix_fst_le (cs : List Char) : (splitRadix cs).1 ≤ 16 := by
  unfold splitRadix
  split <;> simp

/-- What can be said of the digits, in either case, is said of what stands behind a mark. -/
theorem splitRadix_lowerCase_iff {Q : ℕ → List Char → Prop}
    (hfits : ∀ radix digits, radix ≤ 16 → Q radix digits → Fits radix digits)
    (hlower : ∀ radix digits, radix ≤ 16 → (Q radix (digits.map Char.toLower) ↔ Q radix digits))
    (cs : List Char) :
    Q (splitRadix (lowerCase cs)).1 (splitRadix (lowerCase cs)).2 ↔
      ∃ radix mark digits, cs = mark ++ digits ∧ Marked radix mark digits ∧ Q radix digits := by
  constructor
  · intro h
    -- the lower case has come of letters of ASCII alone, so each mark of it is one of the text
    have hnumeric : ∀ c ∈ lowerCase cs, IsNumeric c := by
      obtain ⟨mark, hcs, hmark⟩ := exists_mark_of_splitRadix (lowerCase cs)
      have hrest := (hfits _ _ (splitRadix_fst_le _) h).isNumeric
      intro c hc
      rw [hcs] at hc
      exact (List.mem_append.1 hc).elim (hmark c) (hrest c)
    rw [lowerCase_of_isNumeric (.inr hnumeric)] at h
    obtain ⟨mark, digits, hcs, hdigits, hmarked⟩ := exists_of_splitRadix cs
    rw [← hdigits, hlower _ _ (splitRadix_fst_le _)] at h
    exact ⟨_, mark, digits, hcs, hmarked, h⟩
  · rintro ⟨radix, mark, digits, rfl, hmarked, h⟩
    rw [splitRadix_lowerCase hmarked (hfits radix digits hmarked.radix_le h),
      hlower _ _ hmarked.radix_le]
    exact h

/-! ### Separated digits behind a mark -/

theorem dropUnderscores_toLower (cs : List Char) :
    dropUnderscores (cs.map Char.toLower) = (dropUnderscores cs).map Char.toLower :=
  filter_toLower cs

theorem fits_of_separated (hsep : Separated NotUnderscore digits)
    (hnumeric : ∀ c ∈ dropUnderscores digits, IsNumeric c)
    (hhead : radix = 8 → ∀ c ∈ (dropUnderscores digits).head?,
      c.toLower ∉ ['x', 'b', 'o', 'd', '_']) : Fits radix digits := by
  obtain ⟨first, hfirst, hne⟩ := hsep.exists_head
  obtain ⟨rest, rfl⟩ := List.head?_eq_some_iff.1 hfirst
  refine ⟨List.cons_ne_nil _ _, fun c hc => ?_, fun hr c hc => ?_⟩
  · by_cases hunderscore : c = '_'
    · subst hunderscore
      decide
    · exact hnumeric c (mem_dropUnderscores.2 ⟨hc, hunderscore⟩)
  · obtain rfl : first = c := Option.some.inj hc
    exact hhead hr first (by rw [dropUnderscores_cons hne]; rfl)

/-- Digits as a program may write them. -/
theorem fits_of_separated_isDigit (hr : radix ≤ 16) (h : Separated (IsDigit radix) digits) :
    Fits radix digits := by
  obtain ⟨hsep, hdigits⟩ := (separated_iff_forall (not_isDigit_underscore hr)).1 h
  refine fits_of_separated hsep (fun c hc => ?_) ?_
  · exact isNumeric_of_isSome_digitOf? hr ((isDigit_iff hr).1 (hdigits c hc)).2
  · rintro rfl c hc hmark
    have hnot : ∀ x ∈ ['x', 'b', 'o', 'd', '_'], ¬ IsDigit 8 x := forall_mem_chars (by decide)
    exact hnot _ hmark (isDigit_toLower.2 (hdigits c (List.mem_of_mem_head? hc)))

theorem separated_isDigit_toLower (hr : radix ≤ 16) :
    Separated (IsDigit radix) (digits.map Char.toLower) ↔ Separated (IsDigit radix) digits := by
  have hp := not_isDigit_underscore hr
  rw [separated_iff_forall hp, separated_iff_forall hp, dropUnderscores_toLower,
    separated_map fun c => toLower_eq_underscore, List.forall_mem_map]
  simp only [isDigit_toLower]

/-- Digits that are read: they make a numeral once their underscores, which stand between other
characters, are taken away. -/
def Readable (radix : ℕ) (digits : List Char) : Prop :=
  Separated NotUnderscore digits ∧ ∃ n : Numeral radix, n.chars = dropUnderscores digits

theorem Readable.fits (hr : radix ≤ 16) (h : Readable radix digits) : Fits radix digits := by
  obtain ⟨hsep, n, hn⟩ := h
  refine fits_of_separated hsep (fun c hc => n.isNumeric hr c (hn ▸ hc)) ?_
  rintro rfl
  exact hn ▸ n.head_not_mark

theorem readable_toLower :
    Readable radix (digits.map Char.toLower) ↔ Readable radix digits := by
  rw [Readable, Readable, separated_map fun c => toLower_eq_underscore, dropUnderscores_toLower]
  have htwice : ((dropUnderscores digits).map Char.toLower).map Char.toLower =
      (dropUnderscores digits).map Char.toLower := by
    rw [List.map_map]
    exact List.map_congr_left fun c _ => toLower_toLower c
  exact and_congr_right' ⟨fun ⟨n, hn⟩ => n.exists_of_toLower (by rw [hn, htwice]),
    fun ⟨n, hn⟩ => n.exists_of_toLower (by rw [hn, htwice])⟩

/-! ### What is read -/

theorem readNumeral_eq_ok_iff {m : ℤ} {obscured : List CodePoint} :
    readNumeral radix cs obscured = .ok m ↔ readInteger radix cs = .ok m := by
  unfold readNumeral
  split <;> simp_all

/-- A text is read if, and only if, the digits behind its mark can be. -/
theorem IntegerLiteral.exists_parse_iff {text : Text} : (∃ m, parse text = .ok m) ↔
    Readable (splitRadix (lowerCase (splitSign text.chars).2)).1
      (splitRadix (lowerCase (splitSign text.chars).2)).2 := by
  rcases hsign : splitSign text.chars with ⟨negative, body⟩
  rcases hsplit : splitRadix (lowerCase body) with ⟨radix, digits⟩
  have hread : (∃ m, readNumeral radix (dropUnderscores digits) text.obscured = .ok m) ↔
      ∃ n : Numeral radix, n.chars = dropUnderscores digits := by
    simp only [readNumeral_eq_ok_iff]
    exact Numeral.exists_readInteger_iff (underscore_notMem_dropUnderscores digits)
  rw [parse, hsign]
  dsimp only
  rw [hsplit]
  dsimp only
  rw [Readable, ← isWellSeparated_iff, ← hread]
  split
  next h =>
    cases readNumeral radix (dropUnderscores digits) text.obscured <;> simp [Except.map, h]
  next h => simp [h]

namespace IntegerSpelling

variable (l : IntegerSpelling)

theorem splitSign_chars : splitSign l.chars = (l.sign == .minus, l.mark ++ l.digits) := by
  refine l.sign.splitSign_chars fun _ c hc => ?_
  rcases l.marked with h | ⟨-, hmark, -⟩
  · have hall : ∀ m ∈ radixMarks, m.2.head? = some '0' := by decide
    rw [List.head?_append, hall _ h] at hc
    obtain rfl : '0' = c := Option.some.inj hc
    decide
  · obtain ⟨d, hd, hdigit⟩ := l.separated.exists_head
    rw [hmark, List.nil_append] at hc
    obtain rfl := Option.mem_unique hc hd
    have hr := l.marked.radix_le
    have hsigns : digitWorth '+' = 16 ∧ digitWorth '-' = 16 := by decide
    unfold IsDigit at hdigit
    constructor <;> (rintro rfl; omega)

/-- An integer as a program may write it is read, with the value of its digits by their places. -/
theorem parse_eq {text : Text} (htext : text.chars = l.chars)
    (hlength : l.radix = 10 → l.digitCount ≤ digitLimit) :
    IntegerLiteral.parse text = .ok l.value := by
  have hr := l.marked.radix_le
  have hsplit : splitRadix (lowerCase (l.mark ++ l.digits)) =
      (l.radix, l.digits.map Char.toLower) :=
    splitRadix_lowerCase l.marked (fits_of_separated_isDigit hr l.separated)
  have hlower := (separated_isDigit_toLower hr).2 l.separated
  have hwell : isWellSeparated (l.digits.map Char.toLower) = true :=
    isWellSeparated_iff.2 ((separated_iff_forall (not_isDigit_underscore hr)).1 hlower).1
  have hread : readInteger l.radix (dropUnderscores (l.digits.map Char.toLower)) =
      .ok (positionalValue l.radix l.digits : ℕ) := by
    rw [← positionalValue_toLower]
    refine Numeral.readInteger_digits hr (hlower.dropUnderscores_ne_nil (not_isDigit_underscore hr))
      (hlower.forall_mem (not_isDigit_underscore hr)) fun hnone => ?_
    have hten : l.radix = 10 := by
      rcases l.marked.radix_cases with h | h | h | h
      case inr.inr.inl => exact h
      all_goals
        rw [h] at hnone
        cases hnone
    rw [dropUnderscores_toLower, List.length_map]
    exact hlength hten
  rw [IntegerLiteral.parse, htext, l.splitSign_chars]
  dsimp only
  rw [hsplit]
  dsimp only
  rw [if_pos hwell, readNumeral_eq_ok_iff.2 hread]
  exact congrArg Except.ok (l.sign.ite_neg_eq _)

/-- Its digits begin like a mark of the radix two. -/
def hexadecimal : IntegerSpelling where
  sign := .minus
  radix := 16
  mark := ['0', 'X']
  digits := ['0', 'b', '_', '1', 'F']
  marked := .inl (by decide)
  separated := by decide

def thousand : IntegerSpelling where
  sign := .plus
  radix := 10
  mark := []
  digits := ['1', '_', '0', '0', '0']
  marked := .inr ⟨rfl, rfl, .inr (by decide)⟩
  separated := by decide

theorem parse_eq_hexadecimal_thousand :
    IntegerLiteral.parse "-0X0b_1F" = .ok (-0xB1F) ∧ IntegerLiteral.parse "+1_000" = .ok 1000 :=
  ⟨hexadecimal.parse_eq rfl (by decide), thousand.parse_eq rfl (by decide)⟩

end IntegerSpelling

/-- Whether a text is written like an integer is seen behind its mark. -/
theorem isSpelledInteger_iff : IsSpelledInteger cs ↔
    Separated (IsDigit (splitRadix (lowerCase (splitSign cs).2)).1)
      (splitRadix (lowerCase (splitSign cs).2)).2 := by
  rw [splitRadix_lowerCase_iff (Q := fun radix digits => Separated (IsDigit radix) digits)
    (fun _ _ => fits_of_separated_isDigit) fun _ _ => separated_isDigit_toLower]
  constructor
  · rintro ⟨l, rfl⟩
    rw [l.splitSign_chars]
    exact ⟨l.radix, l.mark, l.digits, rfl, l.marked, l.separated⟩
  · rintro ⟨radix, mark, digits, hbody, hmarked, hsep⟩
    obtain ⟨s, hs, -⟩ := Sign.exists_of_splitSign cs
    exact ⟨⟨s, radix, mark, digits, hmarked, hsep⟩, by rw [IntegerSpelling.chars, ← hbody, ← hs]⟩

instance (cs : List Char) : Decidable (IsSpelledInteger cs) :=
  decidable_of_iff _ isSpelledInteger_iff.symm

/-- A text that is read though no program may write it: there are single underscores between the
characters behind the sign and the mark, and without them these characters have spaces around their
digits, a sign or a mark of their own, or digits beyond ASCII. -/
def IsStray (cs : List Char) : Prop :=
  ∃ radix mark digits, (splitSign cs).2 = mark ++ digits ∧ Marked radix mark digits ∧
    Separated NotUnderscore digits ∧
      ∃ n : Numeral radix, n.chars = dropUnderscores digits ∧ ¬ n.IsPlain

theorem isStray_iff : IsStray cs ↔
    Readable (splitRadix (lowerCase (splitSign cs).2)).1
      (splitRadix (lowerCase (splitSign cs).2)).2 ∧ ¬ IsSpelledInteger cs := by
  rw [isSpelledInteger_iff, splitRadix_lowerCase_iff
    (Q := fun radix digits => Readable radix digits ∧ ¬ Separated (IsDigit radix) digits)
    (fun _ _ hr h => h.1.fits hr)
    fun _ _ hr => and_congr readable_toLower (not_congr (separated_isDigit_toLower hr))]
  refine exists_congr fun radix => exists_congr fun mark => exists_congr fun digits =>
    and_congr_right' (and_congr_right fun hmarked => ?_)
  rw [Readable, and_assoc]
  refine and_congr_right fun hsep => ?_
  have hr := hmarked.radix_le
  rw [separated_iff_forall (not_isDigit_underscore hr), and_iff_right hsep]
  constructor
  · rintro ⟨n, hn, hplain⟩
    exact ⟨⟨n, hn⟩, fun h => hplain ((n.isPlain_iff hr).2 (hn ▸ h))⟩
  · rintro ⟨⟨n, hn⟩, hdigits⟩
    exact ⟨n, hn, fun h => hdigits (hn ▸ (n.isPlain_iff hr).1 h)⟩

/-- Of the texts that no program may write as an integer, all are refused but the stray ones. -/
theorem IntegerLiteral.refused_iff_not_isStray {text : Text}
    (h : ¬ IsSpelledInteger text.chars) :
    (∃ e, parse text = .error e ∧ e.isTextual = true) ↔ ¬ IsStray text.chars := by
  rw [isStray_iff, and_iff_left h, ← exists_parse_iff]
  exact (failsTextually_parse text).refused_iff

theorem IntegerLiteral.refused_iff_not_isStray_nine_signedDigit :
    ((∃ e, parse "09" = .error e ∧ e.isTextual = true) ∧ ¬ IsStray (Text.ofString "09").chars) ∧
      (¬ (∃ e, parse "0x-5" = .error e ∧ e.isTextual = true) ∧
        IsStray (Text.ofString "0x-5").chars) := by
  have hnine : ∃ e, parse "09" = .error e ∧ e.isTextual = true :=
    ⟨.invalidNumeral 8 "9", by decide, rfl⟩
  have hsigned : ¬ ∃ e, parse "0x-5" = .error e ∧ e.isTextual = true := by
    have hread : parse "0x-5" = .ok (-5) := by decide
    rw [hread]
    exact nofun
  have hstray : (∃ e, parse "0x-5" = .error e ∧ e.isTextual = true) ↔ _ :=
    refused_iff_not_isStray (by decide)
  exact ⟨⟨hnine, (refused_iff_not_isStray (by decide)).1 hnine⟩,
    hsigned, not_not.1 (mt hstray.2 hsigned)⟩

/-- A sign behind the mark is read, though no integer is written so. -/
theorem IntegerLiteral.parse_signedDigit :
    parse "0x-5" = .ok (-5) ∧ ¬ IsSpelledInteger (Text.ofString "0x-5").chars := by
  decide

end RubyTokens
