import Mathlib.Data.List.Basic
import Mathlib.Data.List.Induction
import Mathlib.Data.Nat.Digits.Defs
import RubyTokens.Number.Integer

/-! Digits of a radix. A numeral of a program is written with the ten digits and the letters up to
`f`, in either case; what is read as a digit may belong to any script. On the characters of ASCII
the two agree, and neither a space nor an underscore is a digit of any kind. The digits of a numeral
are added up from the left, which gives the value of the positional system. -/

namespace RubyTokens

/-! ### Characters of ASCII -/

/-- What holds of the first 128 characters holds of a character that is one of them. -/
theorem forall_ascii {P : Char → Prop} (h : ∀ n < 128, P (Char.ofNat n)) {c : Char}
    (hc : c.toNat < 128) : P c := by
  have := h c.toNat hc
  rwa [Char.ofNat_toNat] at this

/-- What is said of the characters of a list is decided for one after the other. -/
theorem forall_mem_chars {P : Char → Prop} [DecidablePred P] {cs : List Char}
    (h : cs.all (P ·) = true) : ∀ c ∈ cs, P c :=
  fun c hc => of_decide_eq_true (List.all_eq_true.1 h c hc)

/-- The lower case of a character: a small letter for a capital one, and nothing else changes. -/
theorem toLower_cases (c : Char) :
    (∃ n < 26, c = Char.ofNat (n + 65) ∧ c.toLower = Char.ofNat (n + 97)) ∨ c.toLower = c := by
  by_cases hc : 65 ≤ c.toNat ∧ c.toNat ≤ 90
  · refine .inl ⟨c.toNat - 65, by omega, ?_⟩
    have hletter : ∀ n < 26, (Char.ofNat (n + 65)).toLower = Char.ofNat (n + 97) := by decide
    have hself : Char.ofNat (c.toNat - 65 + 65) = c := by
      rw [show c.toNat - 65 + 65 = c.toNat by omega, Char.ofNat_toNat]
    have hlower := hletter (c.toNat - 65) (by omega)
    rw [hself] at hlower
    exact ⟨hself.symm, hlower⟩
  · refine .inr ?_
    unfold Char.toLower
    split
    next h => exact absurd (by simpa [UInt32.le_iff_toNat_le] using h) hc
    next => rfl

theorem toLower_of_not_ascii {c : Char} (hc : ¬ c.toNat < 128) : c.toLower = c := by
  rcases toLower_cases c with ⟨n, hn, rfl, -⟩ | h
  · have hsmall : ∀ n < 26, (Char.ofNat (n + 65)).toNat < 128 := by decide
    exact absurd (hsmall n hn) hc
  · exact h

/-- What agrees on the letters of either case does not change with the case. -/
theorem congr_toLower {α : Type} {f : Char → α}
    (h : ∀ n < 26, f (Char.ofNat (n + 97)) = f (Char.ofNat (n + 65))) (c : Char) :
    f c.toLower = f c := by
  rcases toLower_cases c with ⟨n, hn, hc, hlower⟩ | hlower
  · rw [hlower, hc, h n hn]
  · rw [hlower]

theorem toLower_toLower (c : Char) : c.toLower.toLower = c.toLower :=
  congr_toLower (f := Char.toLower) (by decide) c

/-- A character and its lower case are the same, or capital and small letter. -/
theorem eq_or_eq_toUpper {c d : Char} (h : c.toLower = d) : c = d ∨ c = d.toUpper := by
  rcases toLower_cases c with ⟨n, hn, rfl, hlower⟩ | hself
  · have hupper : ∀ n < 26, Char.ofNat (n + 65) = (Char.ofNat (n + 97)).toUpper := by decide
    exact .inr (by rw [← h, hlower, hupper n hn])
  · exact .inl (hself.symm.trans h)

/-- What is no letter is the lower case of nothing else. -/
theorem eq_of_toLower {c d : Char} (h : c.toLower = d) (hd : d.toUpper = d) : c = d :=
  (eq_or_eq_toUpper h).elim id fun hc => hc.trans hd

theorem toLower_eq_underscore {c : Char} : c.toLower = '_' ↔ c = '_' :=
  ⟨fun h => eq_of_toLower h (by decide), fun h => by rw [h]; decide⟩

/-- Underscores are where they were. -/
theorem filter_toLower (cs : List Char) :
    (cs.map Char.toLower).filter (· ≠ '_') = (cs.filter (· ≠ '_')).map Char.toLower := by
  rw [List.filter_map]
  congr 1
  exact List.filter_congr fun c _ => by simp [toLower_eq_underscore]

/-! ### Digits as they are written -/

/-- The digits of a radix up to sixteen, in their order. -/
def writtenDigits : List Char :=
  ['0', '1', '2', '3', '4', '5', '6', '7', '8', '9', 'a', 'b', 'c', 'd', 'e', 'f']

/-- What a digit is worth; sixteen for every other character. -/
def digitWorth (c : Char) : ℕ := writtenDigits.idxOf c.toLower

/-- Whether the character is a digit of the radix, which is sixteen at most. -/
def IsDigit (radix : ℕ) (c : Char) : Prop := digitWorth c < radix

instance (radix : ℕ) : DecidablePred (IsDigit radix) :=
  fun c => inferInstanceAs (Decidable (digitWorth c < radix))

/-- The value of digits, underscores between them left out. -/
def positionalValue (radix : ℕ) (cs : List Char) : ℕ :=
  Nat.ofDigits radix ((cs.filter (· ≠ '_')).map digitWorth).reverse

variable {radix d : ℕ} {c : Char}

theorem ascii_of_isDigit (hr : radix ≤ 16) (h : IsDigit radix c) : c.toNat < 128 := by
  by_contra hc
  have hnot : c.toLower ∉ writtenDigits := by
    rw [toLower_of_not_ascii hc]
    intro hm
    have : ∀ w ∈ writtenDigits, w.toNat < 128 := forall_mem_chars (by decide)
    exact hc (this c hm)
  have : digitWorth c = 16 := List.idxOf_eq_length hnot
  rw [IsDigit] at h
  omega

theorem digitWorth_toLower (c : Char) : digitWorth c.toLower = digitWorth c :=
  congr_toLower (by decide) c

theorem isDigit_toLower : IsDigit radix c.toLower ↔ IsDigit radix c := by
  rw [IsDigit, digitWorth_toLower, IsDigit]

theorem positionalValue_toLower (radix : ℕ) (cs : List Char) :
    positionalValue radix (cs.map Char.toLower) = positionalValue radix cs := by
  rw [positionalValue, filter_toLower, List.map_map, positionalValue]
  congr 3
  funext c
  exact digitWorth_toLower c

/-! ### Digits as they are read -/

/-- In ASCII the same characters are digits, and they are worth the same. -/
theorem digitValue?_ascii (hc : c.toNat < 128) (hd : d < 16) :
    digitValue? c = some d ↔ digitWorth c = d := by
  have heq : (digitValue? c).filter (· < 16) =
      if digitWorth c < 16 then some (digitWorth c) else none := by
    refine forall_ascii (P := fun c => (digitValue? c).filter (· < 16) =
      if digitWorth c < 16 then some (digitWorth c) else none) ?_ hc
    decide
  constructor
  · intro h
    rw [h, Option.filter_some, if_pos (decide_eq_true hd)] at heq
    split_ifs at heq
    exact (Option.some.inj heq).symm
  · rintro rfl
    rw [if_pos hd] at heq
    exact (Option.filter_eq_some_iff.1 heq).1

theorem digitOf?_of_isDigit (hr : radix ≤ 16) (h : IsDigit radix c) :
    digitOf? radix c = some (digitWorth c) := by
  have hw : digitWorth c < radix := h
  have hv := (digitValue?_ascii (ascii_of_isDigit hr h) (by omega)).2 rfl
  rw [digitOf?, hv, Option.filter_some, if_pos (decide_eq_true hw)]

theorem digitOf?_eq_some_iff : digitOf? radix c = some d ↔ digitValue? c = some d ∧ d < radix := by
  rw [digitOf?, Option.filter_eq_some_iff, decide_eq_true_iff]

/-- The digits as they are written are those in ASCII that are read. -/
theorem isDigit_iff (hr : radix ≤ 16) :
    IsDigit radix c ↔ c.toNat < 128 ∧ (digitOf? radix c).isSome = true := by
  refine ⟨fun h => ⟨ascii_of_isDigit hr h, by rw [digitOf?_of_isDigit hr h]; rfl⟩, ?_⟩
  rintro ⟨hc, hs⟩
  obtain ⟨d, hd⟩ := Option.isSome_iff_exists.1 hs
  obtain ⟨hv, hlt⟩ := digitOf?_eq_some_iff.1 hd
  have hw := (digitValue?_ascii hc (by omega)).1 hv
  rw [IsDigit, hw]
  exact hlt

theorem digitOf?_toLower (radix : ℕ) (c : Char) : digitOf? radix c.toLower = digitOf? radix c := by
  have hv : digitValue? c.toLower = digitValue? c := congr_toLower (by decide) c
  rw [digitOf?, hv, digitOf?]

theorem decimalDigit?_toLower (c : Char) : decimalDigit? c.toLower = decimalDigit? c :=
  congr_toLower (by decide) c

theorem isNumberSpace_toLower (c : Char) : isNumberSpace c.toLower = isNumberSpace c :=
  congr_toLower (by decide) c

/-- No digit of any script is a space. -/
theorem decimalDigit?_of_isNumberSpace (h : isNumberSpace c = true) : decimalDigit? c = none := by
  by_contra hne
  obtain ⟨d, hd⟩ := Option.ne_none_iff_exists'.1 hne
  obtain ⟨z, hz, hrange⟩ := List.exists_of_findSome?_eq_some hd
  split_ifs at hrange with hin
  have hnot : ∀ z ∈ decimalZeros, ∀ k < 10, isNumberSpace (Char.ofNat (z + k)) = false := by
    decide
  have := hnot z hz (c.toNat - z) (by omega)
  rw [show z + (c.toNat - z) = c.toNat by omega, Char.ofNat_toNat, h] at this
  cases this

/-- Beyond ASCII there are no letters among the digits. -/
theorem digitValue?_of_not_ascii (hc : ¬ c.toNat < 128) : digitValue? c = decimalDigit? c := by
  have hle : ∀ x : Char, x.toNat < 128 → ¬ c ≤ x := by
    intro x hx hcx
    have : c.toNat ≤ x.toNat := hcx
    omega
  rw [digitValue?, if_neg fun h => hle 'z' (by decide) h.2, if_neg fun h => hle 'Z' (by decide) h.2]

theorem digitOf?_of_isNumberSpace (h : isNumberSpace c = true) : digitOf? radix c = none := by
  have hv : digitValue? c = none := by
    by_cases hc : c.toNat < 128
    · revert h
      exact forall_ascii (P := fun c => isNumberSpace c = true → digitValue? c = none)
        (by decide) hc
    · rw [digitValue?_of_not_ascii hc, decimalDigit?_of_isNumberSpace h]
  rw [digitOf?, hv, Option.filter_none]

theorem digitOf?_of_mem_signs (h : c ∈ ['+', '-', '_']) : digitOf? radix c = none := by
  have hv : ∀ c ∈ ['+', '-', '_'], digitValue? c = none := forall_mem_chars (by decide)
  rw [digitOf?, hv c h, Option.filter_none]

/-- A digit is no space, sign or underscore. -/
theorem ne_of_isSome_digitOf? (h : (digitOf? radix c).isSome = true) :
    isNumberSpace c = false ∧ c ≠ '+' ∧ c ≠ '-' ∧ c ≠ '_' := by
  have hne : ∀ x ∈ ['+', '-', '_'], c ≠ x := by
    rintro _ hx rfl
    rw [digitOf?_of_mem_signs hx] at h
    cases h
  refine ⟨?_, hne _ (by decide), hne _ (by decide), hne _ (by decide)⟩
  by_contra hspace
  rw [digitOf?_of_isNumberSpace (Bool.not_eq_false _ ▸ hspace)] at h
  cases h

/-- No digit of any script is a letter of ASCII. -/
theorem not_letter_of_decimalDigit? (h : decimalDigit? c = some d) :
    ¬ ('a' ≤ c ∧ c ≤ 'z') ∧ ¬ ('A' ≤ c ∧ c ≤ 'Z') := by
  have hletters : ∀ n < 26, decimalDigit? (Char.ofNat (n + 97)) = none ∧
      decimalDigit? (Char.ofNat (n + 65)) = none := by decide
  constructor
  · intro ⟨ha, hz⟩
    have h97 : 97 ≤ c.toNat := ha
    have h122 : c.toNat ≤ 122 := hz
    have := (hletters (c.toNat - 97) (by omega)).1
    rw [show c.toNat - 97 + 97 = c.toNat by omega, Char.ofNat_toNat, h] at this
    cases this
  · intro ⟨ha, hz⟩
    have h65 : 65 ≤ c.toNat := ha
    have h90 : c.toNat ≤ 90 := hz
    have := (hletters (c.toNat - 65) (by omega)).2
    rw [show c.toNat - 65 + 65 = c.toNat by omega, Char.ofNat_toNat, h] at this
    cases this

/-- A decimal digit of any script is a digit of every radix that is greater than its worth. -/
theorem digitOf?_of_decimalDigit? (h : decimalDigit? c = some d) (hd : d < radix) :
    digitOf? radix c = some d := by
  obtain ⟨hsmall, hcapital⟩ := not_letter_of_decimalDigit? h
  rw [digitOf?, digitValue?, if_neg hsmall, if_neg hcapital, h, Option.filter_some,
    if_pos (decide_eq_true hd)]

/-- The digits of the radix ten are the decimal digits: letters are worth ten or more. -/
theorem digitOf?_ten (c : Char) : digitOf? 10 c = decimalDigit? c := by
  cases h : decimalDigit? c with
  | some d => exact digitOf?_of_decimalDigit? h (decimalDigit?_lt h)
  | none =>
    rw [digitOf?, digitValue?, h, Option.filter_eq_none_iff]
    intro d hd
    split_ifs at hd with hsmall hcapital
    · have h97 : 97 ≤ c.toNat := hsmall.1
      have := Option.some.inj hd
      simp only [decide_eq_true_eq]
      omega
    · have h65 : 65 ≤ c.toNat := hcapital.1
      have := Option.some.inj hd
      simp only [decide_eq_true_eq]
      omega

/-! ### Values -/

/-- Digits added up from the left make up the value of the positional system. -/
theorem digitsValue_eq_ofDigits (radix : ℕ) (ds : List ℕ) :
    digitsValue radix ds = Nat.ofDigits radix ds.reverse := by
  induction ds using List.reverseRecOn with
  | nil => rfl
  | append_singleton ds d ih =>
    rw [digitsValue_append_single, ih, List.reverse_append, List.reverse_singleton,
      List.singleton_append, Nat.ofDigits_cons, Nat.mul_comm, Nat.add_comm]

/-- The digits of a text as it is written are read with their positional value. -/
theorem digitsValue_filterMap {cs : List Char} (hr : radix ≤ 16)
    (h : ∀ c ∈ cs, IsDigit radix c) :
    digitsValue radix (cs.filterMap (digitOf? radix)) =
      Nat.ofDigits radix (cs.map digitWorth).reverse := by
  have hmap : cs.filterMap (digitOf? radix) = cs.map digitWorth :=
    List.filterMap_eq_map_iff_forall_eq_some.2 fun c hc => digitOf?_of_isDigit hr (h c hc)
  rw [hmap, digitsValue_eq_ofDigits]

end RubyTokens
