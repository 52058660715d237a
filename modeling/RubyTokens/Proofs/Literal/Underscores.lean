import RubyTokens.Proofs.Literal.Decimal

/-! Underscores in decimals. In a decimal as a program may write it, each underscore stands between
two digits. The form of a text is checked without its underscores, so that a text is also read if it
is no such decimal but becomes one when its underscores are taken away. These are all the texts that
are read with an underscore in another place. -/

namespace RubyTokens

open IntegerLiteral (dropUnderscores underscore_notMem_dropUnderscores)

/-! ### Forms of texts -/

/-- A character parts the text in two, each of which has a form of its own. -/
def Parted (c : Char) (P Q : List Char → Prop) (cs : List Char) : Prop :=
  ∃ as bs, cs = as ++ c :: bs ∧ P as ∧ Q bs

/-- A form with a sign in front, or without one. -/
def Signed (P : List Char → Prop) (cs : List Char) : Prop :=
  P cs ∨ Parted '+' (· = []) P cs ∨ Parted '-' (· = []) P cs

/-- Digits of any script with single underscores between them. -/
def IsDigits (cs : List Char) : Prop := Separated (isDecimalDigit · = true) cs

/-- Digits, with or without a point among them. -/
def IsUnscaled (cs : List Char) : Prop := IsDigits cs ∨ Parted '.' IsDigits IsDigits cs

/-- A decimal with or without an exponent. -/
def IsScaled (cs : List Char) : Prop :=
  IsUnscaled cs ∨ Parted 'e' IsUnscaled (Signed IsDigits) cs ∨
    Parted 'E' IsUnscaled (Signed IsDigits) cs

/-- A decimal as a program may write it, if its digits are those of ASCII. -/
def IsDecimal (cs : List Char) : Prop := Signed IsScaled cs

/-- Digits that are not too many to be read exactly. -/
def IsBounded (cs : List Char) : Prop := IsDigits cs ∧ (dropUnderscores cs).length ≤ digitLimit

/-- A decimal with a point and without an exponent, which has an exact value. -/
def IsExact (cs : List Char) : Prop := Signed (Parted '.' IsBounded IsBounded) cs

/-! ### Underscores between digits -/

/-- A form that lets underscores stand between two digits only, and anywhere there. -/
def Strict (P : List Char → Prop) : Prop :=
  ∀ cs, P cs ↔ P (dropUnderscores cs) ∧ Surrounded (isDecimalDigit · = true) cs

/-- A text that has a form only when its underscores are taken away. -/
def IsLoose (P : List Char → Prop) (cs : List Char) : Prop := P (dropUnderscores cs) ∧ ¬ P cs

variable {P Q : List Char → Prop} {c : Char} {as bs cs : List Char}

/-- A strict form is missed for the place of an underscore only. -/
theorem Strict.isLoose_iff (hP : Strict P) :
    IsLoose P cs ↔ P (dropUnderscores cs) ∧ ¬ Surrounded (isDecimalDigit · = true) cs := by
  rw [IsLoose, hP cs, not_and]
  exact and_congr_right fun h => imp_iff_right h

theorem dropUnderscores_dropUnderscores (cs : List Char) :
    dropUnderscores (dropUnderscores cs) = dropUnderscores cs :=
  dropUnderscores_of_notMem (underscore_notMem_dropUnderscores cs)

/-- What stands around a character without the underscores stands around it with them. -/
theorem exists_of_dropUnderscores (h : dropUnderscores cs = as ++ c :: bs) :
    ∃ as' bs', cs = as' ++ c :: bs' ∧ dropUnderscores as' = as ∧ dropUnderscores bs' = bs := by
  obtain ⟨xs, ys, rfl, rfl, hys⟩ := List.filter_eq_append_iff.1 h
  obtain ⟨zs, bs', rfl, hzs, -, rfl⟩ := List.filter_eq_cons_iff.1 hys
  refine ⟨xs ++ zs, bs', by rw [List.append_assoc], ?_, rfl⟩
  have hnone : dropUnderscores zs = [] := List.filter_eq_nil_iff.2 hzs
  rw [dropUnderscores_append, hnone, List.append_nil]
  rfl

theorem not_isDecimalDigit_underscore : ¬ isDecimalDigit '_' = true := by decide

theorem not_isDecimalDigit_point : ¬ isDecimalDigit '.' = true := by decide

theorem strict_nil : Strict (· = []) := by
  intro cs
  refine ⟨fun h => ?_, fun ⟨hnone, h⟩ => ?_⟩
  · subst h
    exact ⟨rfl, fun as bs heq => absurd heq.symm (by simp)⟩
  · by_contra hne
    obtain ⟨c, cs, rfl⟩ := List.exists_cons_of_ne_nil hne
    have hc : c = '_' := by
      by_contra hc
      rw [dropUnderscores_cons hc] at hnone
      cases hnone
    subst hc
    obtain ⟨⟨x, hx, -⟩, -⟩ := h [] cs rfl
    cases hx

theorem strict_isDigits : Strict IsDigits := fun _ =>
  separated_iff_surrounded not_isDecimalDigit_underscore

theorem strict_isBounded : Strict IsBounded := by
  intro cs
  rw [IsBounded, IsBounded, strict_isDigits cs, dropUnderscores_dropUnderscores, and_right_comm]

theorem Strict.or (hP : Strict P) (hQ : Strict Q) : Strict fun cs => P cs ∨ Q cs :=
  fun cs => (or_congr (hP cs) (hQ cs)).trans or_and_right.symm

/-- A character that is no digit parts a strict form from another. -/
theorem Strict.parted (hc : c ≠ '_') (hdigit : ¬ isDecimalDigit c = true) (hP : Strict P)
    (hQ : Strict Q) : Strict (Parted c P Q) := by
  intro cs
  constructor
  · rintro ⟨as, bs, rfl, has, hbs⟩
    obtain ⟨hP', hsurroundedP⟩ := (hP as).1 has
    obtain ⟨hQ', hsurroundedQ⟩ := (hQ bs).1 hbs
    refine ⟨⟨_, _, ?_, hP', hQ'⟩, (surrounded_append_cons hc hdigit).2 ⟨hsurroundedP, hsurroundedQ⟩⟩
    rw [dropUnderscores_append, dropUnderscores_cons hc]
  · rintro ⟨⟨as, bs, hcs, has, hbs⟩, hsurrounded⟩
    obtain ⟨as, bs, rfl, rfl, rfl⟩ := exists_of_dropUnderscores hcs
    obtain ⟨hsurroundedP, hsurroundedQ⟩ := (surrounded_append_cons hc hdigit).1 hsurrounded
    exact ⟨as, bs, rfl, (hP as).2 ⟨has, hsurroundedP⟩, (hQ bs).2 ⟨hbs, hsurroundedQ⟩⟩

theorem Strict.signed (hP : Strict P) : Strict (Signed P) :=
  hP.or ((strict_nil.parted (by decide) (by decide) hP).or
    (strict_nil.parted (by decide) (by decide) hP))

theorem strict_isUnscaled : Strict IsUnscaled :=
  strict_isDigits.or (strict_isDigits.parted (by decide) not_isDecimalDigit_point strict_isDigits)

theorem strict_isDecimal : Strict IsDecimal := by
  have hexponent := strict_isDigits.signed
  exact (strict_isUnscaled.or
    ((strict_isUnscaled.parted (by decide) (by decide) hexponent).or
      (strict_isUnscaled.parted (by decide) (by decide) hexponent))).signed

theorem strict_isExact : Strict IsExact :=
  (strict_isBounded.parted (by decide) not_isDecimalDigit_point strict_isBounded).signed

/-! ### Forms that are read -/

open DecimalForm (IsRun IsFraction IsExponent)

theorem signed_iff : Signed P cs ↔ ∃ (s : Sign) (bs : List Char), cs = s.chars ++ bs ∧ P bs := by
  constructor
  · rintro (h | ⟨_, bs, rfl, rfl, h⟩ | ⟨_, bs, rfl, rfl, h⟩)
    · exact ⟨.none, cs, rfl, h⟩
    · exact ⟨.plus, bs, rfl, h⟩
    · exact ⟨.minus, bs, rfl, h⟩
  · rintro ⟨s, bs, rfl, h⟩
    cases s with
    | none => exact .inl h
    | plus => exact .inr (.inl ⟨[], bs, rfl, rfl, h⟩)
    | minus => exact .inr (.inr ⟨[], bs, rfl, rfl, h⟩)

theorem isDigits_iff (h : '_' ∉ cs) : IsDigits cs ↔ IsRun cs := by
  constructor
  · intro hcs
    have hne := hcs.dropUnderscores_ne_nil not_isDecimalDigit_underscore
    have hall := hcs.forall_mem not_isDecimalDigit_underscore
    rw [dropUnderscores_of_notMem h] at hne hall
    exact ⟨hne, hall⟩
  · intro hcs
    exact separated_of_forall hcs.1 hcs.2

theorem isBounded_iff (h : '_' ∉ cs) : IsBounded cs ↔ IsRun cs ∧ cs.length ≤ digitLimit := by
  rw [IsBounded, isDigits_iff h, dropUnderscores_of_notMem h]

theorem isUnscaled_iff (h : '_' ∉ cs) : IsUnscaled cs ↔
    ∃ whole f fr, cs = whole ++ fr ∧ IsRun whole ∧ IsFraction f fr := by
  constructor
  · rintro (hcs | ⟨as, bs, rfl, has, hbs⟩)
    · exact ⟨cs, none, [], (List.append_nil cs).symm, (isDigits_iff h).1 hcs, .none⟩
    · simp only [List.mem_append, List.mem_cons, not_or] at h
      exact ⟨as, some bs, _, rfl, (isDigits_iff h.1).1 has, .some ((isDigits_iff h.2.2).1 hbs)⟩
  · rintro ⟨whole, f, fr, rfl, hwhole, hfraction⟩
    simp only [List.mem_append, not_or] at h
    cases hfraction with
    | none =>
      rw [List.append_nil]
      exact .inl ((isDigits_iff h.1).2 hwhole)
    | @some ds hds =>
      have hnot : '_' ∉ ds := fun hmem => h.2 (List.mem_cons_of_mem _ hmem)
      exact .inr ⟨whole, ds, rfl, (isDigits_iff h.1).2 hwhole, (isDigits_iff hnot).2 hds⟩

theorem isScaled_iff (h : '_' ∉ cs) : IsScaled cs ↔
    ∃ as e tail, cs = as ++ tail ∧ IsUnscaled as ∧ IsExponent e tail := by
  have hexponent : ∀ {c bs}, c = 'e' ∨ c = 'E' → '_' ∉ bs → Signed IsDigits bs →
      ∃ e, IsExponent e (c :: bs) := by
    intro c bs hc hnot hbs
    obtain ⟨s, ds, rfl, hds⟩ := signed_iff.1 hbs
    exact ⟨_, .some hc s ((isDigits_iff fun hmem => hnot (List.mem_append_right _ hmem)).1 hds)⟩
  constructor
  · rintro (hcs | ⟨as, bs, rfl, has, hbs⟩ | ⟨as, bs, rfl, has, hbs⟩)
    · exact ⟨cs, none, [], (List.append_nil cs).symm, hcs, .none⟩
    · simp only [List.mem_append, List.mem_cons, not_or] at h
      obtain ⟨e, he⟩ := hexponent (.inl rfl) h.2.2 hbs
      exact ⟨as, e, _, rfl, has, he⟩
    · simp only [List.mem_append, List.mem_cons, not_or] at h
      obtain ⟨e, he⟩ := hexponent (.inr rfl) h.2.2 hbs
      exact ⟨as, e, _, rfl, has, he⟩
  · rintro ⟨as, e, tail, rfl, has, he⟩
    cases he with
    | none =>
      rw [List.append_nil]
      exact .inl has
    | @some c ds hc s hds =>
      have hnot : '_' ∉ ds := fun hmem =>
        h (List.mem_append_right _ (List.mem_cons_of_mem _ (List.mem_append_right _ hmem)))
      have hsigned : Signed IsDigits (s.chars ++ ds) :=
        signed_iff.2 ⟨s, ds, rfl, (isDigits_iff hnot).2 hds⟩
      rcases hc with rfl | rfl
      · exact .inr (.inl ⟨as, _, rfl, has, hsigned⟩)
      · exact .inr (.inr ⟨as, _, rfl, has, hsigned⟩)

theorem exists_read_iff (h : '_' ∉ cs) : (∃ d, DecimalForm.read cs = some d) ↔ IsDecimal cs := by
  simp only [DecimalForm.read_eq_some_iff, IsDecimal, signed_iff]
  constructor
  · rintro ⟨d, s, fr, tail, rfl, -, hwhole, hfraction, hexponent⟩
    simp only [List.mem_append, not_or] at h
    refine ⟨s, _, rfl, (isScaled_iff (by simp [h])).2
      ⟨d.whole ++ fr, _, tail, (List.append_assoc ..).symm, ?_, hexponent⟩⟩
    exact (isUnscaled_iff (by simp [h])).2 ⟨_, _, _, rfl, hwhole, hfraction⟩
  · rintro ⟨s, bs, rfl, hbs⟩
    have hnot : '_' ∉ bs := fun hmem => h (List.mem_append_right _ hmem)
    obtain ⟨as, e, tail, rfl, has, hexponent⟩ := (isScaled_iff hnot).1 hbs
    have hnot' : '_' ∉ as := fun hmem => hnot (List.mem_append_left _ hmem)
    obtain ⟨whole, f, fr, rfl, hwhole, hfraction⟩ := (isUnscaled_iff hnot').1 has
    exact ⟨⟨s == .minus, whole, f, e⟩, s, fr, tail, by rw [List.append_assoc], rfl, hwhole,
      hfraction, hexponent⟩

/-- A text without underscores has an exact value as a decimal with a point and no exponent if, and
only if, it has the form of one. -/
theorem exists_toRat_read_iff (h : '_' ∉ cs) :
    ('.' ∈ cs ∧ ∃ d, DecimalForm.read cs = some d ∧ d.exponent = none ∧ ∃ q, d.toRat = .ok q) ↔
      IsExact cs := by
  simp only [IsExact, signed_iff]
  constructor
  · rintro ⟨hpoint, ⟨negative, whole, fraction, exponent⟩, hread, rfl, hvalue⟩
    obtain ⟨s, fr, tail, rfl, -, hwhole, hfraction, hexponent⟩ :=
      DecimalForm.read_eq_some_iff.1 hread
    dsimp only at hwhole hfraction hexponent
    cases hexponent
    simp only [List.mem_append, not_or] at h
    cases hfraction with
    | none =>
      simp only [List.mem_append, List.not_mem_nil, or_false] at hpoint
      rcases hpoint with hsign | hmem
      · exact absurd (Sign.mem_chars hsign) (by decide)
      · exact absurd (hwhole.2 _ hmem) not_isDecimalDigit_point
    | @some ds hds =>
      obtain ⟨hboundedWhole, hbounded⟩ := (DecimalForm.exists_toRat_iff hwhole (by simpa)).1 hvalue
      have hnot : '_' ∉ ds := fun hmem => h.2.2.1 (List.mem_cons_of_mem _ hmem)
      exact ⟨s, whole ++ '.' :: ds, by simp, whole, ds, rfl,
        (isBounded_iff h.2.1).2 ⟨hwhole, hboundedWhole⟩,
        (isBounded_iff hnot).2 ⟨hds, hbounded ds rfl⟩⟩
  · rintro ⟨s, bs, rfl, whole, ds, rfl, hwhole, hds⟩
    simp only [List.mem_append, List.mem_cons, not_or] at h
    obtain ⟨hrunWhole, hboundedWhole⟩ := (isBounded_iff h.2.1).1 hwhole
    obtain ⟨hrun, hbounded⟩ := (isBounded_iff h.2.2.2).1 hds
    refine ⟨by simp, _, DecimalForm.read_of_isRun s hrunWhole hrun, rfl, ?_⟩
    exact (DecimalForm.exists_toRat_iff hrunWhole (by simpa)).2 ⟨hboundedWhole, by simpa⟩

/-! ### Misplaced underscores -/

theorem FloatLiteral.exists_parse_iff {text : Text} :
    (∃ v, parse text = .ok v) ↔ IsDecimal (dropUnderscores text.chars) := by
  rw [← exists_read_iff (underscore_notMem_dropUnderscores _), parse]
  cases DecimalForm.read (dropUnderscores text.chars) <;> simp

/-- A text with a point is read as a rational if, and only if, it is exact before the mark. -/
theorem RationalLiteral.exists_parse_iff {text : Text} (hpoint : '.' ∈ text.chars) :
    (∃ q, parse text = .ok q) ↔
      ∃ body, text.chars = body ++ ['r'] ∧ IsExact (dropUnderscores body) := by
  constructor
  · rintro ⟨q, hq⟩
    obtain ⟨body, htext⟩ : ∃ body, beforeMark? 'r' text = some body := by
      cases hmark : beforeMark? 'r' text with
      | none => simp [parse, hmark] at hq
      | some body => exact ⟨body, rfl⟩
    rw [beforeMark?_eq_some_iff] at htext
    have hchars : text.chars = body.chars ++ ['r'] := by
      rw [Text.chars, htext, List.map_append]
      rfl
    have hbody : '.' ∈ body.chars := by simpa [hchars] using hpoint
    obtain ⟨d, hread, hexponent, hvalue⟩ := (parse_eq_ok_iff_of_point htext hbody).1 hq
    refine ⟨body.chars, hchars, (exists_toRat_read_iff (underscore_notMem_dropUnderscores _)).1 ?_⟩
    exact ⟨mem_dropUnderscores.2 ⟨hbody, by decide⟩, d, hread, hexponent, q, hvalue⟩
  · rintro ⟨cs, hchars, hexact⟩
    obtain ⟨hpoint, d, hread, hexponent, q, hvalue⟩ :=
      (exists_toRat_read_iff (underscore_notMem_dropUnderscores cs)).2 hexact
    obtain ⟨body, htext, rfl⟩ := Text.exists_of_chars (by decide) hchars
    have hbody := (mem_dropUnderscores.1 hpoint).1
    exact ⟨q, (parse_eq_ok_iff_of_point htext hbody).2 ⟨d, hread, hexponent, hvalue⟩⟩

/-- The mark behind a rational is no digit and leaves the underscores where they are. -/
theorem surrounded_append_mark :
    Surrounded (isDecimalDigit · = true) (cs ++ ['r']) ↔
      Surrounded (isDecimalDigit · = true) cs := by
  rw [surrounded_append_cons (by decide) (by decide)]
  exact and_iff_left ((strict_nil []).1 rfl).2

/-- Each underscore stands between two digits, or the text is refused, unless the text is no
decimal, or no exact one in front of its mark, and becomes one without its underscores. -/
theorem surrounded_or_refused_iff (text : Text) :
    ((Surrounded (isDecimalDigit · = true) text.chars ∨
        ∃ e, FloatLiteral.parse text = .error e ∧ e.isTextual = true) ↔
      ¬ IsLoose IsDecimal text.chars) ∧
    ('.' ∈ text.chars → ((Surrounded (isDecimalDigit · = true) text.chars ∨
        ∃ e, RationalLiteral.parse text = .error e ∧ e.isTextual = true) ↔
      ¬ ∃ body, text.chars = body ++ ['r'] ∧ IsLoose IsExact body)) := by
  constructor
  · rw [(FloatLiteral.failsTextually_parse text).refused_iff, FloatLiteral.exists_parse_iff,
      strict_isDecimal.isLoose_iff]
    tauto
  · intro hpoint
    have hloose : (∃ body, text.chars = body ++ ['r'] ∧ IsLoose IsExact body) ↔
        (∃ q, RationalLiteral.parse text = .ok q) ∧
          ¬ Surrounded (isDecimalDigit · = true) text.chars := by
      rw [RationalLiteral.exists_parse_iff hpoint]
      simp only [strict_isExact.isLoose_iff]
      constructor
      · rintro ⟨body, hchars, hexact, hnot⟩
        exact ⟨⟨body, hchars, hexact⟩, by rwa [hchars, surrounded_append_mark]⟩
      · rintro ⟨⟨body, hchars, hexact⟩, hnot⟩
        exact ⟨body, hchars, hexact, by rwa [hchars, surrounded_append_mark] at hnot⟩
    rw [(RationalLiteral.failsTextually_parse text).refused_iff, hloose]
    tauto

theorem surrounded_or_refused_iff_separated_misplaced :
    ¬ IsLoose IsDecimal (Text.ofString "1_000.25").chars ∧
      ∃ body, (Text.ofString "1_.5r").chars = body ++ ['r'] ∧ IsLoose IsExact body := by
  constructor
  · refine (surrounded_or_refused_iff "1_000.25").1.1 (.inl ?_)
    have hwhole : Separated (isDecimalDigit · = true) ['1', '_', '0', '0', '0'] := by decide
    have hdecimals : Separated (isDecimalDigit · = true) ['2', '5'] := by decide
    exact (surrounded_append_cons (by decide) not_isDecimalDigit_point).2
      ⟨hwhole.surrounded not_isDecimalDigit_underscore,
        hdecimals.surrounded not_isDecimalDigit_underscore⟩
  · have hread : RationalLiteral.parse "1_.5r" = .ok (3 / 2) := by decide +kernel
    refine not_not.1 (mt ((surrounded_or_refused_iff "1_.5r").2 (by decide)).2 ?_)
    rintro (h | ⟨e, he, -⟩)
    · obtain ⟨-, c, hc, hdigit⟩ := h ['1'] ['.', '5', 'r'] rfl
      obtain rfl : '.' = c := Option.some.inj hc
      exact absurd hdigit not_isDecimalDigit_point
    · cases hread.symm.trans he

/-- An underscore in front of the digits is read over, and so is one beside the point. -/
theorem parse_misplaced :
    (FloatLiteral.parse "_1.5" = .ok (.finite false 6755399441055744 (-52)) ∧
      ¬ Surrounded (isDecimalDigit · = true) (Text.ofString "_1.5").chars) ∧
    RationalLiteral.parse "1_.5r" = .ok (3 / 2) ∧
      ¬ Surrounded (isDecimalDigit · = true) (Text.ofString "1_.5r").chars := by
  refine ⟨⟨by decide, fun h => ?_⟩, by decide +kernel, fun h => ?_⟩
  · obtain ⟨⟨c, hc, -⟩, -⟩ := h [] ['1', '.', '5'] rfl
    cases hc
  · obtain ⟨-, c, hc, hdigit⟩ := h ['1'] ['.', '5', 'r'] rfl
    obtain rfl : '.' = c := Option.some.inj hc
    exact absurd hdigit not_isDecimalDigit_point

end RubyTokens
