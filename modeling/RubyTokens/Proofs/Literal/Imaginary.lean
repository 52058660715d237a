import RubyTokens.Proofs.Literal.Underscores
import RubyTokens.Proofs.Number.Nearest

/-! Imaginary integers. An imaginary literal is an integer with a mark behind it, and its value is
the number nearest to the integer. But a body that is refused as an integer is read as a decimal, and
one that has only digits and underscores, and some digit, is always a decimal; so the literal has a
value though the integer has none. And an integer that is read may have no number near to it. -/

namespace RubyTokens

open IntegerLiteral (dropUnderscores splitRadix underscore_notMem_dropUnderscores)

/-! ### The nearest number -/

namespace Binary64

theorem isNearest_of_ofInt? {n : ℤ} {x : Binary64} (h : ofInt? n = .ok x) : x.IsNearest n := by
  rw [ofInt?] at h
  split_ifs at h with hinfinite
  obtain rfl := Except.ok.inj h
  have hvalue : sign (n < 0) * ((n.natAbs : ℚ) / (1 : ℕ)) = n := by
    rw [Nat.cast_one, div_one, Nat.cast_natAbs, sign]
    rcases lt_or_ge n 0 with hneg | hpos
    · simp [hneg, abs_of_neg hneg]
    · simp [not_lt.2 hpos, abs_of_nonneg hpos]
  exact hvalue ▸ isNearest_ofQuotient _ Nat.one_pos (Bool.not_eq_true _ ▸ hinfinite)

/-- There is a number near to an integer unless the integer reaches the bound. -/
theorem exists_ofInt?_iff {n : ℤ} : (∃ x, ofInt? n = .ok x) ↔ n.natAbs < overflowBound := by
  have herror : (∃ e, ofInt? n = .error e) ↔ overflowBound ≤ n.natAbs := by
    simp only [ofInt?_eq_error_iff, exists_eq_left]
    rw [← Int.cast_abs, Int.abs_eq_natAbs]
    norm_cast
  rw [← not_le, ← herror]
  cases ofInt? n <;> simp

end Binary64

/-! ### Digits and underscores -/

/-- The text has digits of ASCII and underscores only. -/
def IsDigital (cs : List Char) : Prop := ∀ c ∈ cs, IsDigit 10 c ∨ c = '_'

instance : DecidablePred IsDigital := fun cs => List.decidableBAll _ cs

variable {radix : ℕ} {cs : List Char} {text body : Text}

theorem IsDigital.isDigit (h : IsDigital cs) : ∀ c ∈ dropUnderscores cs, IsDigit 10 c := by
  intro c hc
  obtain ⟨hmem, hne⟩ := mem_dropUnderscores.1 hc
  exact (h c hmem).resolve_right hne

theorem Numeral.isPlain_of_forall (n : Numeral radix) (h : ∀ c ∈ n.chars, IsDigit 10 c) :
    n.IsPlain := by
  have hbare := n.bare_of_ne fun c hc => by
    have hdigit := ((isDigit_iff (by decide)).1 (h c hc)).2
    obtain ⟨hspace, hplus, hminus, -⟩ := ne_of_isSome_digitOf? hdigit
    refine ⟨hspace, hplus, hminus, fun hmark => ?_⟩
    have hletters : ∀ x ∈ ['b', 'o', 'x'], ¬ IsDigit 10 x := forall_mem_chars (by decide)
    have hmem : c.toLower ∈ ['b', 'o', 'x'] := by
      rcases cases_of_radixMark? hmark with ⟨-, hx⟩ | ⟨-, hx⟩ | ⟨-, hx⟩ <;> rw [hx] <;> decide
    exact hletters _ hmem (isDigit_toLower.2 (h c hc))
  obtain ⟨hlead, hsign, hmark, htrail⟩ := hbare
  exact ⟨hlead, hsign, hmark, htrail, fun c hc =>
    ascii_of_isDigit (by decide) (h c (by simp [chars, hc]))⟩

/-- Digits and underscores are never read for more than a program may write. -/
theorem IsDigital.not_isStray (h : IsDigital cs) : ¬ IsStray cs := by
  rintro ⟨radix, mark, digits, hbody, -, -, n, hn, hplain⟩
  obtain ⟨s, hs, -⟩ := Sign.exists_of_splitSign cs
  refine hplain (n.isPlain_of_forall fun c hc => ?_)
  rw [hn] at hc
  obtain ⟨hmem, hne⟩ := mem_dropUnderscores.1 hc
  refine (h c ?_).resolve_right hne
  rw [hs, hbody]
  exact List.mem_append_right _ (List.mem_append_right _ hmem)

/-! ### The two readings of a body -/

/-- An integer as a program may write it is read unless it is a decimal that is too long. -/
theorem IntegerSpelling.exists_parse_iff (l : IntegerSpelling) (htext : text.chars = l.chars) :
    (∃ m, IntegerLiteral.parse text = .ok m) ↔
      (l.radix = 10 → l.digitCount ≤ digitLimit) := by
  refine ⟨fun hread hten => ?_, fun hlength => ⟨_, l.parse_eq htext hlength⟩⟩
  have hr := l.marked.radix_le
  have hsplit : splitRadix (lowerCase (l.mark ++ l.digits)) =
      (l.radix, l.digits.map Char.toLower) :=
    splitRadix_lowerCase l.marked (fits_of_separated_isDigit hr l.separated)
  rw [IntegerLiteral.exists_parse_iff, htext, l.splitSign_chars, hsplit] at hread
  obtain ⟨-, hnumeral⟩ := hread
  have hlower := (separated_isDigit_toLower hr).2 l.separated
  have hdigits := hlower.forall_mem (not_isDigit_underscore hr)
  have hbound := (Numeral.exists_readInteger_ofDigits_iff
    (hlower.dropUnderscores_ne_nil (not_isDigit_underscore hr))
    fun c hc => ((isDigit_iff hr).1 (hdigits c hc)).2).1
    ((Numeral.exists_readInteger_iff (underscore_notMem_dropUnderscores _)).2 hnumeral)
  rw [dropUnderscores_toLower, List.length_map] at hbound
  exact hbound (by rw [hten]; rfl)

theorem IntegerSpelling.exists_ne_underscore (l : IntegerSpelling) : ∃ c ∈ l.chars, c ≠ '_' := by
  obtain ⟨d, hd, hdigit⟩ := l.separated.exists_head
  refine ⟨d, List.mem_append_right _ (List.mem_append_right _ (List.mem_of_mem_head? hd)), ?_⟩
  rintro rfl
  exact not_isDigit_underscore l.marked.radix_le hdigit

theorem IsDigital.exists_parse_iff (h : IsDigital text.chars) :
    (∃ m, IntegerLiteral.parse text = .ok m) ↔ ∃ l : IntegerSpelling, l.chars = text.chars ∧
      (l.radix = 10 → l.digitCount ≤ digitLimit) := by
  constructor
  · intro hread
    have hspelled : IsSpelledInteger text.chars := by
      by_contra hnot
      exact h.not_isStray (isStray_iff.2 ⟨IntegerLiteral.exists_parse_iff.1 hread, hnot⟩)
    obtain ⟨l, hl⟩ := hspelled
    exact ⟨l, hl, (l.exists_parse_iff hl.symm).1 hread⟩
  · rintro ⟨l, hl, hlength⟩
    exact (l.exists_parse_iff hl.symm).2 hlength

/-- Digits and underscores are a decimal as soon as there is a digit. -/
theorem IsDigital.exists_parse_float_iff (h : IsDigital text.chars) :
    (∃ v, FloatLiteral.parse text = .ok v) ↔ ∃ c ∈ text.chars, c ≠ '_' := by
  rw [FloatLiteral.exists_parse_iff]
  constructor
  · intro hdecimal
    by_contra hnone
    have hnil : dropUnderscores text.chars = [] :=
      List.filter_eq_nil_iff.2 fun c hc hne => hnone ⟨c, hc, by simpa using hne⟩
    rw [hnil] at hdecimal
    simp [IsDecimal, Signed, IsScaled, IsUnscaled, IsDigits, Parted, not_separated_nil] at hdecimal
  · rintro ⟨c, hc, hne⟩
    have hsome : dropUnderscores text.chars ≠ [] :=
      List.ne_nil_of_mem (mem_dropUnderscores.2 ⟨hc, hne⟩)
    exact .inl (.inl (.inl ((isDigits_iff (underscore_notMem_dropUnderscores _)).2
      (DecimalForm.isRun_of_isDigit hsome h.isDigit))))

namespace ImaginaryLiteral

variable {n : ℤ} {e : LiteralError}

theorem beforeMark?_append (body : Text) :
    RationalLiteral.beforeMark? 'i' (body ++ ("i" : Text)) = some body :=
  RationalLiteral.beforeMark?_eq_some_iff.2 rfl

theorem getLast?_ne_of_isDigital (h : IsDigital body.chars) :
    body.points.getLast? ≠ some (.char 'r') := by
  intro hr
  have hmem : 'r' ∈ body.chars := List.mem_map_of_mem (List.mem_of_getLast? hr)
  exact absurd (h 'r' hmem) (by decide)

theorem parse_of_ok (h : IsDigital body.chars) (hn : IntegerLiteral.parse body = .ok n) :
    parse (body ++ ("i" : Text)) = Binary64.ofInt? n := by
  simp only [parse, beforeMark?_append, if_neg (getLast?_ne_of_isDigital h), hn]

theorem parse_of_error (h : IsDigital body.chars) (he : IntegerLiteral.parse body = .error e) :
    parse (body ++ ("i" : Text)) = FloatLiteral.parse body := by
  simp only [parse, beforeMark?_append, if_neg (getLast?_ne_of_isDigital h), he]

/-- The literal has a value if, and only if, the integer in front of its mark has one, and it is the
number nearest to the integer. -/
def FollowsInteger (body : Text) : Prop :=
  ((∃ x, parse (body ++ ("i" : Text)) = .ok x) ↔ ∃ n, IntegerLiteral.parse body = .ok n) ∧
    ∀ n x, IntegerLiteral.parse body = .ok n → parse (body ++ ("i" : Text)) = .ok x → x.IsNearest n

theorem followsInteger_iff_of_ok (h : IsDigital body.chars)
    (hn : IntegerLiteral.parse body = .ok n) :
    FollowsInteger body ↔ n.natAbs < Binary64.overflowBound := by
  rw [FollowsInteger, parse_of_ok h hn, hn, ← Binary64.exists_ofInt?_iff]
  constructor
  · rintro ⟨hiff, -⟩
    exact hiff.2 ⟨n, rfl⟩
  · intro hx
    refine ⟨⟨fun _ => ⟨n, rfl⟩, fun _ => hx⟩, fun m x hm hx => ?_⟩
    obtain rfl := Except.ok.inj hm
    exact Binary64.isNearest_of_ofInt? hx

theorem followsInteger_iff_of_error (h : IsDigital body.chars)
    (he : IntegerLiteral.parse body = .error e) :
    FollowsInteger body ↔ ∀ c ∈ body.chars, c = '_' := by
  have hfloat := h.exists_parse_float_iff
  rw [FollowsInteger, parse_of_error h he, he, hfloat]
  simp

/-- Digits and underscores with a mark behind them have the value of the integer if, and only if,
there is no digit at all, or the integer is one that a program may write, is not too long, and does
not reach the bound. -/
theorem followsInteger_iff (h : IsDigital body.chars) : FollowsInteger body ↔
    (∀ c ∈ body.chars, c = '_') ∨ ∃ l : IntegerSpelling, l.chars = body.chars ∧
      (l.radix = 10 → l.digitCount ≤ digitLimit) ∧ l.value.natAbs < Binary64.overflowBound := by
  cases hn : IntegerLiteral.parse body with
  | error e =>
    rw [followsInteger_iff_of_error h hn, iff_self_or]
    rintro ⟨l, hl, hlength, -⟩
    cases (l.parse_eq hl.symm hlength).symm.trans hn
  | ok n =>
    obtain ⟨l, hl, hlength⟩ := h.exists_parse_iff.1 ⟨n, hn⟩
    have hvalue : ∀ l : IntegerSpelling, l.chars = body.chars →
        (l.radix = 10 → l.digitCount ≤ digitLimit) → l.value = n := fun l hl hlength =>
      Except.ok.inj ((l.parse_eq hl.symm hlength).symm.trans hn)
    rw [followsInteger_iff_of_ok h hn]
    constructor
    · intro hless
      exact .inr ⟨l, hl, hlength, (hvalue l hl hlength).symm ▸ hless⟩
    · rintro (hnone | ⟨l', hl', hlength', hless⟩)
      · obtain ⟨c, hc, hne⟩ := l.exists_ne_underscore
        exact absurd (hnone c (hl ▸ hc)) hne
      · exact hvalue l' hl' hlength' ▸ hless

/-- Behind a zero the digits are octal. -/
def octalFifteen : IntegerSpelling where
  sign := .none
  radix := 8
  mark := ['0']
  digits := ['1', '_', '7']
  marked := .inl (by decide)
  separated := by decide

theorem followsInteger_iff_octalFifteen_nine :
    FollowsInteger "01_7" ∧ ¬ FollowsInteger "09" := by
  have hfifteen : IsDigital (Text.ofString "01_7").chars := by decide +kernel
  have hdigital : IsDigital (Text.ofString "09").chars := by decide +kernel
  constructor
  · refine (followsInteger_iff hfifteen).2 (.inr ⟨octalFifteen, rfl, by decide, ?_⟩)
    decide +kernel
  · rw [followsInteger_iff hdigital]
    rintro (hnone | ⟨l, hl, -⟩)
    · exact absurd (hnone '9' (by decide)) (by decide)
    · have hnine : ¬ IsSpelledInteger (Text.ofString "09").chars := by decide
      exact hnine ⟨l, hl⟩

/-- A digit that is not octal is read as a decimal one, and a doubled underscore is read over. -/
theorem parse_nine_doubled :
    (IntegerLiteral.parse "09" = .error (.invalidNumeral 8 "9") ∧
      parse "09i" = .ok (.finite false (9 * 2 ^ 49) (-49))) ∧
    IntegerLiteral.parse "1__0" = .error (.malformed .integer "1__0") ∧
      parse "1__0i" = .ok (.finite false (10 * 2 ^ 49) (-49)) := by
  decide

end ImaginaryLiteral

end RubyTokens
