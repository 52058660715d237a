import Mathlib.Data.List.TakeWhile
import RubyTokens.Proofs.Number.Digits

/-! Numerals as they are read. A text without underscores is read as an integer if, and only if, it
is made of spaces, a sign, a mark of the radix, digits and spaces again, where only the digits may
not be missing, and where a radix without a mark bounds their number. So more is read than a program
may write: a numeral is plain if it has nothing but digits of ASCII. -/

namespace RubyTokens

/-! ### Signs -/

inductive Sign where
  | none
  | plus
  | minus
  deriving DecidableEq, Repr

namespace Sign

def chars : Sign → List Char
  | none => []
  | plus => ['+']
  | minus => ['-']

def factor : Sign → ℤ
  | minus => -1
  | _ => 1

theorem mem_chars {s : Sign} {c : Char} (h : c ∈ s.chars) : c = '+' ∨ c = '-' := by
  cases s with
  | none => cases h
  | plus => exact .inl (List.mem_singleton.1 h)
  | minus => exact .inr (List.mem_singleton.1 h)

/-- What stands behind a sign; a text without a sign does not begin like one. -/
theorem splitSign_chars (s : Sign) {cs : List Char}
    (h : s = none → ∀ c ∈ cs.head?, c ≠ '+' ∧ c ≠ '-') :
    splitSign (s.chars ++ cs) = (s == minus, cs) := by
  cases s with
  | none => exact splitSign_of_head? (fun hc => (h rfl _ hc).1 rfl) (fun hc => (h rfl _ hc).2 rfl)
  | plus => rfl
  | minus => rfl

theorem exists_of_splitSign (cs : List Char) :
    ∃ s : Sign, cs = s.chars ++ (splitSign cs).2 ∧ (splitSign cs).1 = (s == minus) := by
  unfold splitSign
  split
  · exact ⟨minus, rfl, rfl⟩
  · exact ⟨plus, rfl, rfl⟩
  · exact ⟨none, rfl, rfl⟩

theorem withSign_eq (s : Sign) (n : ℕ) : withSign (s == minus) n = s.factor * n := by
  cases s with
  | minus => exact (neg_one_mul _).symm
  | _ => exact (one_mul _).symm

theorem ite_neg_eq (s : Sign) (n : ℤ) : (if (s == minus) = true then -n else n) = s.factor * n := by
  cases s with
  | minus => exact (neg_one_mul _).symm
  | _ => exact (one_mul _).symm

end Sign

/-! ### What is read -/

/-- The parts of a numeral without underscores. -/
structure Numeral (radix : ℕ) where
  lead : List Char
  sign : Sign
  mark : List Char
  digits : List Char
  trail : List Char
  lead_space : ∀ c ∈ lead, isNumberSpace c = true
  isMark : mark = [] ∨ ∃ zero letter, mark = [zero, letter] ∧ decimalDigit? zero = some 0 ∧
    radixMark? radix = some letter.toLower
  digits_ne_nil : digits ≠ []
  isSome_digitOf? : ∀ c ∈ digits, (digitOf? radix c).isSome = true
  trail_space : ∀ c ∈ trail, isNumberSpace c = true
  bounded : radixMark? radix = none → digits.length ≤ digitLimit

namespace Numeral

variable {radix : ℕ} {c : Char} {cs : List Char}

def chars (n : Numeral radix) : List Char :=
  n.lead ++ (n.sign.chars ++ (n.mark ++ (n.digits ++ n.trail)))

def value (n : Numeral radix) : ℤ :=
  n.sign.factor * digitsValue radix (n.digits.filterMap (digitOf? radix))

/-- Nothing but digits of ASCII. -/
def IsPlain (n : Numeral radix) : Prop :=
  n.lead = [] ∧ n.sign = .none ∧ n.mark = [] ∧ n.trail = [] ∧ ∀ c ∈ n.digits, c.toNat < 128

theorem cases_of_radixMark? {letter : Char} (h : radixMark? radix = some letter) :
    radix = 2 ∧ letter = 'b' ∨ radix = 8 ∧ letter = 'o' ∨ radix = 16 ∧ letter = 'x' := by
  unfold radixMark? at h
  split at h
  · exact .inl ⟨rfl, (Option.some.inj h).symm⟩
  · exact .inr (.inl ⟨rfl, (Option.some.inj h).symm⟩)
  · exact .inr (.inr ⟨rfl, (Option.some.inj h).symm⟩)
  · cases h

/-- The letter of a mark is no digit of its radix. -/
theorem digitOf?_of_radixMark? (h : radixMark? radix = some c.toLower) :
    digitOf? radix c = none := by
  rw [← digitOf?_toLower]
  rcases cases_of_radixMark? h with ⟨rfl, hc⟩ | ⟨rfl, hc⟩ | ⟨rfl, hc⟩ <;> rw [hc] <;> decide

theorem isNumberSpace_of_radixMark? (h : radixMark? radix = some c.toLower) :
    isNumberSpace c = false := by
  rw [← isNumberSpace_toLower]
  rcases cases_of_radixMark? h with ⟨rfl, hc⟩ | ⟨rfl, hc⟩ | ⟨rfl, hc⟩ <;> rw [hc] <;> decide

/-- Neither a digit nor a space is a mark's letter. -/
theorem radixMark?_ne (h : (digitOf? radix c).isSome = true ∨ isNumberSpace c = true) :
    radixMark? radix ≠ some c.toLower := by
  intro hm
  rcases h with h | h
  · rw [digitOf?_of_radixMark? hm] at h
    cases h
  · rw [isNumberSpace_of_radixMark? hm] at h
    cases h

theorem takeDigits_eq (h : '_' ∉ cs) :
    takeDigits radix cs = some
      ((cs.takeWhile fun c => (digitOf? radix c).isSome).filterMap (digitOf? radix),
        cs.dropWhile fun c => (digitOf? radix c).isSome) := by
  induction cs with
  | nil => rfl
  | cons c cs ih =>
    obtain ⟨hc, hcs⟩ := List.ne_and_not_mem_of_not_mem_cons h
    rw [takeDigits.eq_def]
    dsimp only
    cases hd : digitOf? radix c with
    | none => simp [hd, hc.symm]
    | some d =>
      dsimp only
      split
      next => exact absurd List.mem_cons_self hcs
      next => simp [ih hcs, hd]

theorem takeDigits_append {ds rest : List Char}
    (hds : ∀ c ∈ ds, (digitOf? radix c).isSome = true)
    (hrest : ∀ c ∈ rest, isNumberSpace c = true) :
    takeDigits radix (ds ++ rest) = some (ds.filterMap (digitOf? radix), rest) := by
  have hstop : ∀ c ∈ rest, ¬ (digitOf? radix c).isSome = true := fun c hc => by
    rw [digitOf?_of_isNumberSpace (hrest c hc)]
    exact Bool.false_ne_true
  have hunderscore : '_' ∉ ds ++ rest := by
    intro h
    rcases List.mem_append.1 h with h | h
    · exact (ne_of_isSome_digitOf? (hds _ h)).2.2.2 rfl
    · exact absurd (hrest _ h) (by decide)
  rw [takeDigits_eq hunderscore, List.takeWhile_append_of_pos hds, List.dropWhile_append_of_pos hds]
  cases rest with
  | nil => simp
  | cons c rest => simp [hstop c List.mem_cons_self]

theorem exists_digits (n : Numeral radix) :
    ∃ d ds, n.digits = d :: ds ∧ (digitOf? radix d).isSome = true := by
  obtain ⟨d, ds, hds⟩ := List.exists_cons_of_ne_nil n.digits_ne_nil
  exact ⟨d, ds, hds, n.isSome_digitOf? d (hds ▸ List.mem_cons_self)⟩

/-- Behind the sign there stands a digit, for the zero of a mark is one, too. -/
theorem exists_head (n : Numeral radix) : ∃ d rest,
    n.mark ++ (n.digits ++ n.trail) = d :: rest ∧ (digitOf? radix d).isSome = true := by
  rcases n.isMark with hm | ⟨zero, letter, hm, hzero, hletter⟩
  · obtain ⟨d, ds, hds, hd⟩ := n.exists_digits
    exact ⟨d, ds ++ n.trail, by rw [hm, hds]; rfl, hd⟩
  · have hpos : 0 < radix := by
      rcases cases_of_radixMark? hletter with ⟨rfl, -⟩ | ⟨rfl, -⟩ | ⟨rfl, -⟩ <;> decide
    exact ⟨zero, letter :: (n.digits ++ n.trail), by rw [hm]; rfl,
      by rw [digitOf?_of_decimalDigit? hzero hpos]; rfl⟩

theorem cases_of_head? (n : Numeral radix) : ∀ c ∈ n.chars.head?,
    isNumberSpace c = true ∨ c = '+' ∨ c = '-' ∨ (digitOf? radix c).isSome = true := by
  intro c hc
  rw [chars, Option.mem_def, List.head?_append] at hc
  cases hlead : n.lead with
  | cons x lead =>
    rw [hlead] at hc
    obtain rfl : x = c := Option.some.inj hc
    exact .inl (n.lead_space x (hlead ▸ List.mem_cons_self))
  | nil =>
    obtain ⟨d, rest, hrest, hd⟩ := n.exists_head
    rw [hlead, hrest] at hc
    cases hs : n.sign with
    | none =>
      rw [hs] at hc
      obtain rfl : d = c := Option.some.inj hc
      exact .inr (.inr (.inr hd))
    | plus =>
      rw [hs] at hc
      exact .inr (.inl (Option.some.inj hc).symm)
    | minus =>
      rw [hs] at hc
      exact .inr (.inr (.inl (Option.some.inj hc).symm))

/-- A mark is passed over, and without one nothing is. -/
theorem dropRadixMark_chars (n : Numeral radix) :
    dropRadixMark radix (n.mark ++ (n.digits ++ n.trail)) = n.digits ++ n.trail := by
  obtain ⟨d, ds, hds, hd⟩ := n.exists_digits
  rcases n.isMark with hm | ⟨zero, letter, hm, hzero, hletter⟩
  · rw [hm, hds, List.nil_append, List.cons_append]
    cases htail : ds ++ n.trail with
    | nil => rfl
    | cons c rest =>
      have hc : c ∈ ds ++ n.trail := htail ▸ List.mem_cons_self
      have hne : radixMark? radix ≠ some c.toLower := by
        refine radixMark?_ne ?_
        rcases List.mem_append.1 hc with hc | hc
        · exact .inl (n.isSome_digitOf? c (hds ▸ List.mem_cons_of_mem d hc))
        · exact .inr (n.trail_space c hc)
      rw [dropRadixMark.eq_def]
      exact if_neg fun h => hne h.2
  · have hunderscore : d ≠ '_' := (ne_of_isSome_digitOf? hd).2.2.2
    rw [hm, hds, dropRadixMark.eq_def]
    refine (if_pos ⟨hzero, hletter⟩).trans ?_
    split
    next h => exact absurd (List.cons.inj h).1 hunderscore
    next => rfl

theorem dropWhile_chars (n : Numeral radix) :
    n.chars.dropWhile isNumberSpace = n.sign.chars ++ (n.mark ++ (n.digits ++ n.trail)) := by
  obtain ⟨d, rest, hrest, hd⟩ := n.exists_head
  rw [chars, List.dropWhile_append_of_pos n.lead_space, hrest]
  cases n.sign with
  | none => exact List.dropWhile_cons_of_neg (by simp [(ne_of_isSome_digitOf? hd).1])
  | plus => exact List.dropWhile_cons_of_neg (by decide)
  | minus => exact List.dropWhile_cons_of_neg (by decide)

/-- Each numeral is read, with its value. -/
theorem readInteger_chars (n : Numeral radix) : readInteger radix n.chars = .ok n.value := by
  have hsign : splitSign (n.sign.chars ++ (n.mark ++ (n.digits ++ n.trail))) =
      (n.sign == .minus, n.mark ++ (n.digits ++ n.trail)) := by
    obtain ⟨d, rest, hrest, hd⟩ := n.exists_head
    obtain ⟨-, hplus, hminus, -⟩ := ne_of_isSome_digitOf? hd
    refine n.sign.splitSign_chars fun _ c hc => ?_
    rw [hrest] at hc
    obtain rfl : d = c := Option.some.inj hc
    exact ⟨hplus, hminus⟩
  have hbound : ¬ ((radixMark? radix).isNone = true ∧
      digitLimit < (n.digits.filterMap (digitOf? radix)).length) := by
    rintro ⟨hnone, hlong⟩
    have := n.bounded (Option.isNone_iff_eq_none.1 hnone)
    have := List.length_filterMap_le (digitOf? radix) n.digits
    omega
  have hsome : ¬ (n.digits.filterMap (digitOf? radix) = [] ∨
      n.trail.dropWhile isNumberSpace ≠ []) := by
    rintro (h | h)
    · obtain ⟨d, ds, hds, hd⟩ := n.exists_digits
      rw [List.filterMap_eq_nil_iff.1 h d (hds ▸ List.mem_cons_self)] at hd
      cases hd
    · exact h (List.dropWhile_eq_nil_iff.2 n.trail_space)
  rw [readInteger, n.dropWhile_chars, hsign]
  dsimp only
  rw [n.dropRadixMark_chars, takeDigits_append n.isSome_digitOf? n.trail_space]
  dsimp only
  rw [if_neg hbound, if_neg hsome, Sign.withSign_eq]
  rfl

/-- A text is cut into a mark, which may be missing, and what is read behind it. -/
theorem exists_of_dropRadixMark (radix : ℕ) (hunderscore : '_' ∉ cs) :
    ∃ mark, cs = mark ++ dropRadixMark radix cs ∧
      (mark = [] ∨ ∃ zero letter, mark = [zero, letter] ∧ decimalDigit? zero = some 0 ∧
        radixMark? radix = some letter.toLower) := by
  unfold dropRadixMark
  split
  next zero letter cs =>
    split_ifs with hmark
    · refine ⟨[zero, letter], ?_, .inr ⟨zero, letter, rfl, hmark⟩⟩
      split
      next => simp at hunderscore
      next => rfl
    · exact ⟨[], rfl, .inl rfl⟩
  next => exact ⟨[], rfl, .inl rfl⟩

/-- Only numerals are read. -/
theorem exists_of_readInteger {m : ℤ} (hunderscore : '_' ∉ cs)
    (h : readInteger radix cs = .ok m) : ∃ n : Numeral radix, n.chars = cs ∧ n.value = m := by
  obtain ⟨s, hs, hminus⟩ := Sign.exists_of_splitSign (cs.dropWhile isNumberSpace)
  rcases hsplit : splitSign (cs.dropWhile isNumberSpace) with ⟨negative, body⟩
  rw [hsplit] at hs hminus
  dsimp only at hs hminus
  have hbody : '_' ∉ body := fun hm => hunderscore
    (List.dropWhile_sublist isNumberSpace |>.mem (hs ▸ List.mem_append_right _ hm))
  obtain ⟨mark, hmark, isMark⟩ := exists_of_dropRadixMark radix hbody
  have hdigits : '_' ∉ dropRadixMark radix body := fun hm => hbody
    (hmark ▸ List.mem_append_right _ hm)
  rw [readInteger, hsplit] at h
  dsimp only at h
  rw [takeDigits_eq hdigits] at h
  dsimp only at h
  split_ifs at h with hlong hbad
  rw [not_or, not_not] at hbad
  obtain ⟨hsome, htrail⟩ := hbad
  have isSome_digitOf? : ∀ c ∈ (dropRadixMark radix body).takeWhile
      (fun c => (digitOf? radix c).isSome), (digitOf? radix c).isSome = true := by
    intro c hc
    have hdigit := List.mem_takeWhile_imp hc
    exact hdigit
  rw [List.filterMap_length_eq_length.2 isSome_digitOf?] at hlong
  let n : Numeral radix :=
    { lead := cs.takeWhile isNumberSpace
      sign := s
      mark := mark
      digits := (dropRadixMark radix body).takeWhile fun c => (digitOf? radix c).isSome
      trail := (dropRadixMark radix body).dropWhile fun c => (digitOf? radix c).isSome
      lead_space := fun c hc => List.mem_takeWhile_imp hc
      isMark := isMark
      digits_ne_nil := fun hnil => hsome (by rw [hnil]; rfl)
      isSome_digitOf? := isSome_digitOf?
      trail_space := List.dropWhile_eq_nil_iff.1 htrail
      bounded := fun hnone => by
        by_contra hlt
        exact hlong ⟨Option.isNone_iff_eq_none.2 hnone, Nat.lt_of_not_le hlt⟩ }
  refine ⟨n, ?_, ?_⟩
  · calc n.chars
      _ = cs.takeWhile isNumberSpace ++ (s.chars ++ (mark ++ dropRadixMark radix body)) := by
          rw [chars, List.takeWhile_append_dropWhile]
      _ = cs := by rw [← hmark, ← hs, List.takeWhile_append_dropWhile]
  · rw [← Except.ok.inj h, hminus, Sign.withSign_eq]
    rfl

theorem exists_readInteger_iff (hunderscore : '_' ∉ cs) :
    (∃ m, readInteger radix cs = .ok m) ↔ ∃ n : Numeral radix, n.chars = cs := by
  constructor
  · rintro ⟨m, hm⟩
    obtain ⟨n, hn, -⟩ := exists_of_readInteger hunderscore hm
    exact ⟨n, hn⟩
  · rintro ⟨n, rfl⟩
    exact ⟨n.value, n.readInteger_chars⟩

/-! ### Numerals without spaces, sign and mark -/

/-- Digits as a numeral. -/
def ofDigits (cs : List Char) (hne : cs ≠ []) (h : ∀ c ∈ cs, (digitOf? radix c).isSome = true)
    (hbound : radixMark? radix = none → cs.length ≤ digitLimit) : Numeral radix where
  lead := []
  sign := .none
  mark := []
  digits := cs
  trail := []
  lead_space _ hc := absurd hc List.not_mem_nil
  isMark := .inl rfl
  digits_ne_nil := hne
  isSome_digitOf? := h
  trail_space _ hc := absurd hc List.not_mem_nil
  bounded := hbound

theorem readInteger_ofDigits (hne : cs ≠ []) (h : ∀ c ∈ cs, (digitOf? radix c).isSome = true)
    (hbound : radixMark? radix = none → cs.length ≤ digitLimit) :
    readInteger radix cs = .ok (digitsValue radix (cs.filterMap (digitOf? radix)) : ℕ) := by
  have hread := (ofDigits cs hne h hbound).readInteger_chars
  have hchars : (ofDigits cs hne h hbound).chars = cs := List.append_nil cs
  rw [hchars] at hread
  rw [hread]
  exact congrArg Except.ok (one_mul _)

/-- Digits of ASCII are read with their positional value. -/
theorem readInteger_digits (hr : radix ≤ 16) (hne : cs ≠ []) (h : ∀ c ∈ cs, IsDigit radix c)
    (hbound : radixMark? radix = none → cs.length ≤ digitLimit) :
    readInteger radix cs = .ok (Nat.ofDigits radix (cs.map digitWorth).reverse : ℕ) := by
  rw [readInteger_ofDigits hne (fun c hc => ((isDigit_iff hr).1 (h c hc)).2) hbound,
    digitsValue_filterMap hr h]

/-- A numeral without spaces, signs and letters of marks has nothing but digits. -/
theorem bare_of_ne (n : Numeral radix) (h : ∀ c ∈ n.chars, isNumberSpace c = false ∧ c ≠ '+' ∧
      c ≠ '-' ∧ radixMark? radix ≠ some c.toLower) :
    n.lead = [] ∧ n.sign = .none ∧ n.mark = [] ∧ n.trail = [] := by
  have hspace : ∀ cs : List Char, (∀ c ∈ cs, c ∈ n.chars) → (∀ c ∈ cs, isNumberSpace c = true) →
      cs = [] := by
    intro cs hmem hcs
    refine List.eq_nil_iff_forall_not_mem.2 fun c hc => ?_
    have := (h c (hmem c hc)).1
    rw [hcs c hc] at this
    cases this
  refine ⟨hspace n.lead (fun c hc => by simp [chars, hc]) n.lead_space, ?_, ?_,
    hspace n.trail (fun c hc => by simp [chars, hc]) n.trail_space⟩
  · cases hs : n.sign with
    | none => rfl
    | plus => exact absurd rfl (h '+' (by simp [chars, hs, Sign.chars])).2.1
    | minus => exact absurd rfl (h '-' (by simp [chars, hs, Sign.chars])).2.2.1
  · rcases n.isMark with hm | ⟨zero, letter, hm, -, hletter⟩
    · exact hm
    · exact absurd hletter (h letter (by simp [chars, hm])).2.2.2

theorem bare_of_forall (n : Numeral radix)
    (h : ∀ c ∈ n.chars, (digitOf? radix c).isSome = true) :
    n.lead = [] ∧ n.sign = .none ∧ n.mark = [] ∧ n.trail = [] := by
  refine n.bare_of_ne fun c hc => ?_
  obtain ⟨hspace, hplus, hminus, -⟩ := ne_of_isSome_digitOf? (h c hc)
  exact ⟨hspace, hplus, hminus, radixMark?_ne (.inl (h c hc))⟩

/-- Digits are read unless they are too many. -/
theorem exists_readInteger_ofDigits_iff (hne : cs ≠ [])
    (h : ∀ c ∈ cs, (digitOf? radix c).isSome = true) :
    (∃ m, readInteger radix cs = .ok m) ↔ (radixMark? radix = none → cs.length ≤ digitLimit) := by
  refine ⟨fun hread => ?_, fun hbound => ⟨_, readInteger_ofDigits hne h hbound⟩⟩
  have hunderscore : '_' ∉ cs := fun hc => (ne_of_isSome_digitOf? (h _ hc)).2.2.2 rfl
  obtain ⟨n, rfl⟩ := (exists_readInteger_iff hunderscore).1 hread
  obtain ⟨hlead, hsign, hmark, htrail⟩ := n.bare_of_forall h
  have hchars : n.chars = n.digits := by
    rw [chars, hlead, hsign, hmark, htrail, List.append_nil]
    rfl
  exact hchars ▸ n.bounded

/-- A numeral is plain if, and only if, its text has nothing but digits of the radix. -/
theorem isPlain_iff (hr : radix ≤ 16) (n : Numeral radix) :
    n.IsPlain ↔ ∀ c ∈ n.chars, IsDigit radix c := by
  constructor
  · rintro ⟨hlead, hsign, hmark, htrail, hascii⟩ c hc
    rw [chars, hlead, hsign, hmark, htrail, List.append_nil] at hc
    exact (isDigit_iff hr).2 ⟨hascii c hc, n.isSome_digitOf? c hc⟩
  · intro h
    obtain ⟨hlead, hsign, hmark, htrail⟩ :=
      n.bare_of_forall fun c hc => ((isDigit_iff hr).1 (h c hc)).2
    exact ⟨hlead, hsign, hmark, htrail,
      fun c hc => ((isDigit_iff hr).1 (h c (by simp [chars, hc]))).1⟩

/-! ### Capital letters -/

/-- A class of characters that does not tell cases apart passes on to the other case. -/
theorem forall_of_toLower {f : Char → Bool} (hf : ∀ c, f c.toLower = f c) {xs ys : List Char}
    (h : xs.map Char.toLower = ys.map Char.toLower) (hy : ∀ c ∈ ys, f c = true) :
    ∀ c ∈ xs, f c = true := by
  intro c hc
  have hlower : c.toLower ∈ ys.map Char.toLower := h ▸ List.mem_map_of_mem hc
  obtain ⟨y, hmem, heq⟩ := List.mem_map.1 hlower
  rw [← hf c, ← heq, hf]
  exact hy y hmem

theorem eq_chars_of_toLower {s : Sign} {xs : List Char}
    (h : xs.map Char.toLower = s.chars.map Char.toLower) : xs = s.chars := by
  have hsign : ∀ x ∈ ['+', '-'], ∀ c : Char, c.toLower = x.toLower → c = x := by
    intro x hx c hc
    have hself : ∀ x ∈ ['+', '-'], x.toLower = x ∧ x.toUpper = x := forall_mem_chars (by decide)
    obtain ⟨hlower, hupper⟩ := hself x hx
    exact eq_of_toLower (hc.trans hlower) hupper
  have hone : ∀ x ∈ ['+', '-'], xs.map Char.toLower = [x].map Char.toLower → xs = [x] := by
    intro x hx hxs
    obtain ⟨c, rfl, hc⟩ := List.map_eq_singleton_iff.1 hxs
    rw [hsign x hx c hc]
  cases s with
  | none => exact List.map_eq_nil_iff.1 h
  | plus => exact hone '+' (by decide) h
  | minus => exact hone '-' (by decide) h

/-- Capital letters are read like small ones: a text is a numeral whatever their case. -/
theorem exists_of_toLower (n : Numeral radix) (h : cs.map Char.toLower = n.chars.map Char.toLower) :
    ∃ n' : Numeral radix, n'.chars = cs := by
  simp only [chars, List.map_append] at h
  obtain ⟨lead, body, rfl, hlead, hbody⟩ := List.map_eq_append_iff.1 h
  obtain ⟨sign, unsigned, rfl, hsign, hunsigned⟩ := List.map_eq_append_iff.1 hbody
  obtain rfl := eq_chars_of_toLower hsign
  obtain ⟨mark, unmarked, rfl, hmark, hunmarked⟩ := List.map_eq_append_iff.1 hunsigned
  obtain ⟨digits, trail, rfl, hdigits, htrail⟩ := List.map_eq_append_iff.1 hunmarked
  have hlength : digits.length = n.digits.length := by
    simpa using congrArg List.length hdigits
  refine ⟨{
    lead := lead
    sign := n.sign
    mark := mark
    digits := digits
    trail := trail
    lead_space := forall_of_toLower isNumberSpace_toLower hlead n.lead_space
    isMark := ?_
    digits_ne_nil := fun hnil => n.digits_ne_nil ?_
    isSome_digitOf? := ?_
    trail_space := forall_of_toLower isNumberSpace_toLower htrail n.trail_space
    bounded := hlength ▸ n.bounded }, ?_⟩
  · rcases n.isMark with hm | ⟨zero, letter, hm, hzero, hletter⟩
    · exact .inl (List.map_eq_nil_iff.1 (by rw [hmark, hm]; rfl))
    · rw [hm] at hmark
      obtain ⟨z, tail, rfl, hz, htail⟩ := List.map_eq_cons_iff.1 hmark
      obtain ⟨l, rfl, hl⟩ := List.map_eq_singleton_iff.1 htail
      refine .inr ⟨z, l, rfl, ?_, ?_⟩
      · rw [← decimalDigit?_toLower, hz, decimalDigit?_toLower, hzero]
      · rw [hl, hletter]
  · rw [hnil] at hdigits
    exact List.map_eq_nil_iff.1 hdigits.symm
  · exact forall_of_toLower (f := fun c => (digitOf? radix c).isSome)
      (fun c => by rw [digitOf?_toLower]) hdigits n.isSome_digitOf?
  · rfl

end Numeral

end RubyTokens
