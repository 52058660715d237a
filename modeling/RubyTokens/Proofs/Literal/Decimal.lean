import Mathlib.Data.Rat.Lemmas
import RubyTokens.Literal.Decimal
import RubyTokens.Proofs.Literal.Integer

/-! Decimal numbers. Without underscores a decimal is made of a sign, digits, perhaps a point with
digits and perhaps an exponent, and this is all that is read. The value of a rational literal is
exact: the digits before and behind the point, over as many tens as stand behind it. Where there is
no point, it is the value of an integer literal. -/

namespace RubyTokens

open IntegerLiteral (dropUnderscores)

namespace DecimalForm

variable {cs ds rest tail fr : List Char} {d : DecimalForm} {f : Option (List Char)} {e : Option ℤ}

/-! ### What is read -/

/-- Digits of any script, one at least. -/
def IsRun (cs : List Char) : Prop := cs ≠ [] ∧ ∀ c ∈ cs, isDecimalDigit c = true

/-- The text of a fraction, with its point. -/
inductive IsFraction : Option (List Char) → List Char → Prop
  | none : IsFraction none []
  | some {ds : List Char} (h : IsRun ds) : IsFraction (some ds) ('.' :: ds)

/-- The text of an exponent, with its letter. -/
inductive IsExponent : Option ℤ → List Char → Prop
  | none : IsExponent none []
  | some {c : Char} {ds : List Char} (hc : c = 'e' ∨ c = 'E') (s : Sign) (h : IsRun ds) :
      IsExponent (some (s.factor * value ds)) (c :: (s.chars ++ ds))

theorem isDecimalDigit_eq (c : Char) : isDecimalDigit c = (digitOf? 10 c).isSome := by
  rw [isDecimalDigit, digitOf?_ten]

theorem isRun_of_isDigit (hne : cs ≠ []) (h : ∀ c ∈ cs, IsDigit 10 c) : IsRun cs :=
  ⟨hne, fun c hc => by
    rw [isDecimalDigit_eq]
    exact ((isDigit_iff (by decide)).1 (h c hc)).2⟩

theorem IsRun.ne_sign (h : IsRun cs) : ∀ c ∈ cs, c ≠ '+' ∧ c ≠ '-' := by
  intro c hc
  have := h.2 c hc
  rw [isDecimalDigit_eq] at this
  exact ⟨(ne_of_isSome_digitOf? this).2.1, (ne_of_isSome_digitOf? this).2.2.1⟩

theorem IsExponent.head (h : IsExponent e tail) : ∀ c ∈ tail.head?, c = 'e' ∨ c = 'E' := by
  cases h with
  | none => simp
  | some hc s h => simpa using hc

theorem takeRun_eq_some_iff : takeRun cs = some (ds, rest) ↔
    cs = ds ++ rest ∧ IsRun ds ∧ ∀ c ∈ rest.head?, ¬ isDecimalDigit c = true := by
  constructor
  · intro h
    unfold takeRun at h
    split at h
    · cases h
    next hne =>
      obtain ⟨rfl, rfl⟩ := Prod.mk.inj (Option.some.inj h)
      have hall : ∀ c ∈ cs.takeWhile isDecimalDigit, isDecimalDigit c = true := fun c hc =>
        List.mem_takeWhile_imp hc
      refine ⟨List.takeWhile_append_dropWhile.symm, ⟨hne, hall⟩, ?_⟩
      intro c hc
      have := List.head?_dropWhile_not isDecimalDigit cs
      rw [Option.mem_def.1 hc] at this
      simpa using this
  · rintro ⟨rfl, ⟨hne, hds⟩, hrest⟩
    have htake : rest.takeWhile isDecimalDigit = [] ∧ rest.dropWhile isDecimalDigit = rest := by
      cases rest with
      | nil => simp
      | cons c rest => simp [hrest c rfl]
    unfold takeRun
    rw [List.takeWhile_append_of_pos hds, List.dropWhile_append_of_pos hds, htake.1, htake.2,
      List.append_nil]
    split
    next => exact absurd rfl hne
    next => rfl

theorem takeFraction_of_head? (h : cs.head? ≠ some '.') : takeFraction cs = some (none, cs) := by
  unfold takeFraction
  split
  · exact absurd rfl h
  · rfl

theorem takeExponent_eq_some_iff : takeExponent cs = some (e, []) ↔ IsExponent e cs := by
  constructor
  · intro h
    cases cs with
    | nil =>
      obtain ⟨rfl, -⟩ := Prod.mk.inj (Option.some.inj h)
      exact .none
    | cons c cs =>
      rw [takeExponent] at h
      split at h
      next hc =>
        obtain ⟨s, hs, hminus⟩ := Sign.exists_of_splitSign cs
        rcases hsplit : splitSign cs with ⟨negative, body⟩
        rw [hsplit] at h hs hminus
        obtain ⟨⟨ds, rest⟩, hrun, heq⟩ := Option.map_eq_some_iff.1 h
        obtain ⟨rfl, rfl⟩ := Prod.mk.inj heq
        obtain ⟨rfl, hds, -⟩ := takeRun_eq_some_iff.1 hrun
        dsimp only at hs hminus
        rw [hs, List.append_nil, hminus, Sign.withSign_eq]
        exact .some hc s hds
      next => cases h
  · intro h
    cases h with
    | none => rfl
    | @some c ds hc s h =>
      have hsign : splitSign (s.chars ++ ds) = (s == .minus, ds) :=
        s.splitSign_chars fun _ c hc => h.ne_sign c (List.mem_of_mem_head? hc)
      have hrun : takeRun ds = some (ds, []) :=
        takeRun_eq_some_iff.2 ⟨(List.append_nil ds).symm, h, by simp⟩
      rw [takeExponent, if_pos hc, hsign]
      dsimp only
      rw [hrun, Option.map_some, Sign.withSign_eq]

/-- A text without underscores is read if, and only if, it has the parts of a decimal. -/
theorem read_eq_some_iff : read cs = some d ↔ ∃ (s : Sign) (fr tail : List Char),
    cs = s.chars ++ (d.whole ++ (fr ++ tail)) ∧ d.negative = (s == .minus) ∧ IsRun d.whole ∧
      IsFraction d.fraction fr ∧ IsExponent d.exponent tail := by
  constructor
  · intro h
    obtain ⟨s, hs, hminus⟩ := Sign.exists_of_splitSign cs
    rcases hsplit : splitSign cs with ⟨negative, body⟩
    rw [hsplit] at hs hminus
    simp only [read, hsplit, Option.bind_eq_bind, Option.bind_eq_some_iff] at h
    obtain ⟨⟨whole, rest⟩, hwhole, ⟨fraction, rest'⟩, hfraction, ⟨e, rest''⟩, hexponent, hend⟩ := h
    dsimp only at hs hminus hfraction hexponent hend
    split_ifs at hend with hnil
    obtain rfl := Option.some.inj hend
    subst hnil
    obtain ⟨rfl, hrun, -⟩ := takeRun_eq_some_iff.1 hwhole
    have hexponent := takeExponent_eq_some_iff.1 hexponent
    unfold takeFraction at hfraction
    split at hfraction
    · obtain ⟨⟨ds, tail⟩, hds, heq⟩ := Option.map_eq_some_iff.1 hfraction
      obtain ⟨rfl, rfl⟩ := Prod.mk.inj heq
      obtain ⟨rfl, hdecimals, -⟩ := takeRun_eq_some_iff.1 hds
      exact ⟨s, '.' :: ds, tail, hs, hminus, hrun, .some hdecimals, hexponent⟩
    · obtain ⟨rfl, rfl⟩ := Prod.mk.inj (Option.some.inj hfraction)
      exact ⟨s, [], rest, hs, hminus, hrun, .none, hexponent⟩
  · obtain ⟨negative, whole, fraction, exponent⟩ := d
    rintro ⟨s, fr, tail, rfl, rfl, hrun, hfraction, hexponent⟩
    dsimp only at hrun hfraction hexponent ⊢
    have hsign : splitSign (s.chars ++ (whole ++ (fr ++ tail))) =
        (s == .minus, whole ++ (fr ++ tail)) := by
      refine s.splitSign_chars fun _ c hc => hrun.ne_sign c ?_
      rw [List.head?_append_of_ne_nil _ hrun.1] at hc
      exact List.mem_of_mem_head? hc
    have hletter : ∀ c ∈ tail.head?, ¬ isDecimalDigit c = true ∧ c ≠ '.' := by
      intro c hc
      rcases hexponent.head c hc with rfl | rfl <;> decide
    have hwhole : takeRun (whole ++ (fr ++ tail)) = some (whole, fr ++ tail) := by
      refine takeRun_eq_some_iff.2 ⟨rfl, hrun, fun c hc => ?_⟩
      cases hfraction with
      | none => exact (hletter c hc).1
      | some h =>
        obtain rfl : '.' = c := Option.some.inj hc
        decide
    have htakeFraction : takeFraction (fr ++ tail) = some (fraction, tail) := by
      cases hfraction with
      | none => exact takeFraction_of_head? fun hc => (hletter '.' hc).2 rfl
      | @some ds h =>
        have hds : takeRun (ds ++ tail) = some (ds, tail) :=
          takeRun_eq_some_iff.2 ⟨rfl, h, fun c hc => (hletter c hc).1⟩
        rw [List.cons_append, takeFraction, hds, Option.map_some]
    rw [read, hsign]
    simp only [Option.bind_eq_bind, hwhole, Option.bind_some, htakeFraction,
      takeExponent_eq_some_iff.2 hexponent, if_true]

theorem read_of_isRun (s : Sign) {whole : List Char} (hwhole : IsRun whole) (hds : IsRun ds) :
    read (s.chars ++ (whole ++ '.' :: ds)) = some ⟨s == .minus, whole, some ds, none⟩ :=
  read_eq_some_iff.2 ⟨s, '.' :: ds, [], by rw [List.append_nil], rfl, hwhole, .some hds, .none⟩

/-! ### The exact value -/

theorem exists_readNumeral_iff (h : IsRun ds) :
    (∃ n, readNumeral 10 ds = .ok n) ↔ ds.length ≤ digitLimit := by
  simp only [readNumeral_eq_ok_iff]
  rw [Numeral.exists_readInteger_ofDigits_iff h.1 fun c hc => isDecimalDigit_eq c ▸ h.2 c hc]
  exact imp_iff_right rfl

/-- A decimal has an exact value unless there are too many digits on one side of the point. -/
theorem exists_toRat_iff (hwhole : IsRun d.whole) (hfraction : ∀ ds ∈ d.fraction, IsRun ds) :
    (∃ q, d.toRat = .ok q) ↔
      d.whole.length ≤ digitLimit ∧ ∀ ds ∈ d.fraction, ds.length ≤ digitLimit := by
  obtain ⟨negative, whole, fraction, exponent⟩ := d
  rw [← exists_readNumeral_iff hwhole, toRat]
  cases hw : readNumeral 10 whole with
  | error e => simp [bind, Except.bind]
  | ok m =>
    cases fraction with
    | none => simp [bind, Except.bind, pure, Except.pure]
    | some ds =>
      have hds := hfraction ds rfl
      simp only [Option.mem_some_iff, forall_eq', ← exists_readNumeral_iff hds]
      cases hp : readNumeral 10 ds <;>
        simp [hp, hds.1, bind, Except.bind, pure, Except.pure]

theorem toRat_eq {negative : Bool} {whole : List Char} {m n : ℕ} (hne : ds ≠ [])
    (hwhole : readNumeral 10 whole = .ok m) (hds : readNumeral 10 ds = .ok n) :
    toRat ⟨negative, whole, some ds, e⟩ =
      .ok (mkRat (withSign negative (m * 10 ^ ds.length + n)) (10 ^ ds.length)) := by
  simp [toRat, hwhole, hds, hne, bind, Except.bind, pure, Except.pure, withSign]

end DecimalForm

/-! ### In front of the mark -/

namespace RationalLiteral

variable {text body : Text} {q : ℚ}

theorem beforeMark?_eq_some_iff {mark : Char} :
    beforeMark? mark text = some body ↔ text.points = body.points ++ [.char mark] := by
  obtain ⟨ps⟩ := text
  obtain ⟨qs⟩ := body
  unfold beforeMark?
  split_ifs with h
  · simp only [Option.some.injEq, Text.mk.injEq]
    obtain ⟨rs, rfl⟩ := List.getLast?_eq_some_iff.1 h
    rw [List.dropLast_concat, List.append_left_inj]
  · refine ⟨nofun, ?_⟩
    rintro rfl
    exact absurd List.getLast?_concat h

/-- With a point, what is in front of the mark is read as a decimal that has no exponent. -/
theorem parse_eq_ok_iff_of_point (htext : text.points = body.points ++ [.char 'r'])
    (hpoint : '.' ∈ body.chars) : parse text = .ok q ↔
      ∃ d, DecimalForm.read (dropUnderscores body.chars) = some d ∧ d.exponent = none ∧
        d.toRat = .ok q := by
  have hmem := (Text.mem_chars_iff (by decide)).1 hpoint
  simp only [parse, beforeMark?_eq_some_iff.2 htext, hmem, if_true]
  cases DecimalForm.read (dropUnderscores body.chars) with
  | none => simp
  | some d => cases he : d.exponent <;> simp [he]

/-- Without a point it is read as an integer. -/
theorem parse_eq_ok_iff_of_no_point (htext : text.points = body.points ++ [.char 'r'])
    (hpoint : .char '.' ∉ body.points) : parse text = .ok q ↔
      ∃ n, IntegerLiteral.parse body = .ok n ∧ q = n := by
  simp only [parse, beforeMark?_eq_some_iff.2 htext, hpoint, if_false]
  cases IntegerLiteral.parse body <;> simp [Except.map, eq_comm]

end RationalLiteral

/-! ### Rational literals -/

/-- A rational with a point as a program may write it, with no more digits than are read. -/
structure RationalSpelling where
  sign : Sign
  whole : List Char
  decimals : List Char
  whole_separated : Separated (IsDigit 10) whole
  decimals_separated : Separated (IsDigit 10) decimals
  whole_bounded : (dropUnderscores whole).length ≤ digitLimit
  decimals_bounded : (dropUnderscores decimals).length ≤ digitLimit

namespace RationalSpelling

def chars (l : RationalSpelling) : List Char :=
  l.sign.chars ++ (l.whole ++ '.' :: l.decimals) ++ ['r']

/-- The number of digits behind the point. -/
def places (l : RationalSpelling) : ℕ := (dropUnderscores l.decimals).length

/-- All the digits as one integer, which stands over as many tens as there are places. -/
def numerator (l : RationalSpelling) : ℤ :=
  l.sign.factor * (positionalValue 10 l.whole * 10 ^ l.places + positionalValue 10 l.decimals : ℕ)

end RationalSpelling

theorem dropUnderscores_signChars (s : Sign) : dropUnderscores s.chars = s.chars := by
  cases s <;> rfl

/-- Separated digits of ASCII, once their underscores are taken away. -/
theorem readNumeral_of_separated {cs : List Char} (h : Separated (IsDigit 10) cs)
    (hbound : (dropUnderscores cs).length ≤ digitLimit) :
    DecimalForm.IsRun (dropUnderscores cs) ∧
      readNumeral 10 (dropUnderscores cs) = .ok (positionalValue 10 cs : ℕ) := by
  have hne := h.dropUnderscores_ne_nil (not_isDigit_underscore (by decide))
  have hall := h.forall_mem (not_isDigit_underscore (by decide))
  exact ⟨DecimalForm.isRun_of_isDigit hne hall,
    readNumeral_eq_ok_iff.2 (Numeral.readInteger_digits (by decide) hne hall fun _ => hbound)⟩

/-- A rational with a point has as its value its digits as one integer, over as many tens as there
are digits behind the point, in lowest terms; without a point, it has the value of the integer. -/
theorem RationalLiteral.parse_exact :
    (∀ (l : RationalSpelling) (text : Text), text.chars = l.chars →
      ∃ q, parse text = .ok q ∧ q.num * 10 ^ l.places = l.numerator * q.den ∧ 0 < q.den ∧
        q.num.natAbs.Coprime q.den) ∧
    ∀ text body : Text, text.points = body.points ++ [.char 'r'] → .char '.' ∉ body.points →
      ∀ q, parse text = .ok q ↔ ∃ n, IntegerLiteral.parse body = .ok n ∧ q.num = n ∧ q.den = 1 := by
  refine ⟨fun l text htext => ?_, fun text body htext hpoint q => ?_⟩
  · obtain ⟨body, hpoints, hbody⟩ := Text.exists_of_chars (by decide) htext
    obtain ⟨hwhole, hwholeValue⟩ := readNumeral_of_separated l.whole_separated l.whole_bounded
    obtain ⟨hdecimals, hdecimalsValue⟩ :=
      readNumeral_of_separated l.decimals_separated l.decimals_bounded
    have hread := DecimalForm.read_of_isRun l.sign hwhole hdecimals
    have hdropped : dropUnderscores body.chars = l.sign.chars ++
        (dropUnderscores l.whole ++ '.' :: dropUnderscores l.decimals) := by
      rw [hbody, dropUnderscores_append, dropUnderscores_append, dropUnderscores_signChars,
        dropUnderscores_cons (by decide)]
    have hvalue : DecimalForm.toRat ⟨l.sign == .minus, dropUnderscores l.whole,
        some (dropUnderscores l.decimals), none⟩ = .ok (mkRat l.numerator (10 ^ l.places)) := by
      rw [DecimalForm.toRat_eq hdecimals.1 hwholeValue hdecimalsValue, Sign.withSign_eq]
      rfl
    refine ⟨mkRat l.numerator (10 ^ l.places), ?_, ?_, Rat.den_pos _, Rat.reduced _⟩
    · refine (parse_eq_ok_iff_of_point hpoints (by rw [hbody]; simp)).2 ⟨_, ?_, rfl, hvalue⟩
      rw [hdropped, hread]
    · have hscale : 10 ^ l.places ≠ 0 := pow_ne_zero _ (by decide)
      exact_mod_cast (Rat.mkRat_eq_iff (Rat.den_nz _) hscale).1 (Rat.mkRat_self _)
  · rw [parse_eq_ok_iff_of_no_point htext hpoint]
    refine exists_congr fun n => and_congr_right fun _ => ?_
    constructor
    · rintro rfl
      exact ⟨Rat.num_intCast n, Rat.den_intCast n⟩
    · rintro ⟨hnum, hden⟩
      exact Rat.ext hnum hden

/-- The digits `1025` over two tens, in lowest terms. -/
def negativeDecimal : RationalSpelling where
  sign := .minus
  whole := ['1', '_', '0']
  decimals := ['2', '5']
  whole_separated := by decide
  decimals_separated := by decide
  whole_bounded := by decide
  decimals_bounded := by decide

theorem RationalLiteral.parse_exact_negativeDecimal_hexadecimal :
    (∃ q, parse "-1_0.25r" = .ok q ∧ q.num * 10 ^ 2 = -1025 * q.den ∧ 0 < q.den ∧
      q.num.natAbs.Coprime q.den) ∧ parse "0x10r" = .ok 16 :=
  ⟨parse_exact.1 negativeDecimal "-1_0.25r" rfl,
    (parse_exact.2 "0x10r" "0x10" rfl (by decide) 16).2 ⟨16, by decide, rfl, rfl⟩⟩

end RubyTokens
