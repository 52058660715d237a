import RubyTokens.Proofs.Number.Digits
import RubyTokens.Text.LowerCase

/-! Lower case and numerals. The lower case of a letter beyond ASCII is never a digit of any script,
a space or a letter that a numeral may have: two such letters become an `i` and a `k`, all others
stay beyond ASCII, and the runs of the table meet neither digits nor spaces. So where the lower case
of a text may stand in a numeral, nothing but letters of ASCII has been changed. -/

namespace RubyTokens

/-- Whether a character may stand in a numeral, signs and letters included. -/
def IsNumeric (c : Char) : Prop :=
  (c.toNat < 128 ∧ c ≠ 'i' ∧ c ≠ 'k') ∨ isNumberSpace c = true ∨ (decimalDigit? c).isSome = true

instance : DecidablePred IsNumeric := fun c => by unfold IsNumeric; infer_instance

/-- Ranges of spaces and of digits. -/
def numericRanges : List (ℕ × ℕ) :=
  [(0x9, 0xD), (0x20, 0x20), (0x85, 0x85), (0xA0, 0xA0), (0x1680, 0x1680), (0x2000, 0x200A),
    (0x2028, 0x2029), (0x202F, 0x202F), (0x205F, 0x205F), (0x3000, 0x3000)] ++
    decimalZeros.map fun z => (z, z + 9)

theorem exists_numericRange {c : Char}
    (h : isNumberSpace c = true ∨ (decimalDigit? c).isSome = true) :
    ∃ r ∈ numericRanges, r.1 ≤ c.toNat ∧ c.toNat ≤ r.2 := by
  rcases h with h | h
  · simp only [isNumberSpace, isSpace, Bool.and_eq_true, Bool.or_eq_true, Bool.not_eq_true',
      decide_eq_true_eq, beq_iff_eq, Bool.and_eq_false_iff, decide_eq_false_iff_not] at h
    simp only [numericRanges, List.mem_append, List.mem_cons, List.not_mem_nil, or_false,
      or_and_right, exists_or, exists_eq_left]
    omega
  · obtain ⟨d, hd⟩ := Option.isSome_iff_exists.1 h
    obtain ⟨z, hz, hrange⟩ := List.exists_of_findSome?_eq_some hd
    split_ifs at hrange with hin
    exact ⟨(z, z + 9), List.mem_append_right _ (List.mem_map_of_mem hz), hin.1, by omega⟩

/-- Whether the characters from one to another lie outside all ranges of spaces and digits. -/
def avoidsRanges (first last : ℕ) : Bool :=
  numericRanges.all fun r => r.2.blt first || last.blt r.1

/-- What a run of letters and their lower case must be like: both avoid spaces and digits, and the
lower case stays beyond ASCII, but for the sign of the kelvin. -/
def isDetached : ℕ × ℕ × ℕ × ℕ → Bool
  | (first, last, step, lower) =>
    (last.blt 128 || Nat.ble 128 lower || (first, last, step, lower) = (0x212A, 0x212A, 1, 0x6B)) &&
      ((lower + (last - first)).blt 0xD800 ||
        Nat.ble 0xE000 lower && (lower + (last - first)).blt 0x110000) &&
      avoidsRanges first last && avoidsRanges lower (lower + (last - first))

theorem isDetached_of_mem : lowerRuns.toList.all isDetached = true := by decide +kernel

/-- No range is met by characters that avoid them. -/
theorem not_numeric_of_avoidsRanges {first last : ℕ} {c : Char}
    (h : avoidsRanges first last = true) (hfirst : first ≤ c.toNat) (hlast : c.toNat ≤ last) :
    ¬ (isNumberSpace c = true ∨ (decimalDigit? c).isSome = true) := by
  intro hc
  obtain ⟨r, hr, h1, h2⟩ := exists_numericRange hc
  have hoff := List.all_eq_true.1 h r hr
  rw [Bool.or_eq_true, Nat.blt_eq, Nat.blt_eq] at hoff
  omega

/-- A letter of a run keeps its distance from the first one. -/
theorem lowerChar_cases (c : Char) : lowerChar c = c ∨ ∃ run ∈ lowerRuns.toList,
    run.1 ≤ c.toNat ∧ c.toNat ≤ run.2.1 ∧
      lowerChar c = Char.ofNat (run.2.2.2 + (c.toNat - run.1)) := by
  unfold lowerChar
  dsimp only
  split
  next first last step lower hfind =>
    have hin := Array.find?_some hfind
    simp only [Bool.and_eq_true, decide_eq_true_eq] at hin
    exact .inr ⟨_, Array.mem_toList_iff.2 (Array.mem_of_find?_eq_some hfind), hin.1.1, hin.1.2, rfl⟩
  next => exact .inl rfl

/-- A character beyond ASCII that is numeric, or has a numeric lower case, is its own lower case. -/
theorem lowerChar_of_isNumeric {c : Char} (hc : ¬ c.toNat < 128)
    (h : IsNumeric c ∨ IsNumeric (lowerChar c)) : lowerChar c = c := by
  rcases lowerChar_cases c with hself | ⟨⟨first, last, step, lower⟩, hmem, hfirst, hlast, hlower⟩
  · exact hself
  exfalso
  have hdetached := List.all_eq_true.1 isDetached_of_mem _ hmem
  dsimp only at hfirst hlast hlower
  simp only [isDetached, Bool.and_eq_true, Bool.or_eq_true, Nat.blt_eq, Nat.ble_eq,
    decide_eq_true_eq] at hdetached
  obtain ⟨⟨⟨hascii, hvalid⟩, hsource⟩, htarget⟩ := hdetached
  have hnat : (lowerChar c).toNat = lower + (c.toNat - first) := by
    have hchar : (lower + (c.toNat - first)).isValidChar := by
      rw [Nat.isValidChar]
      omega
    rw [hlower, Char.ofNat, dif_pos hchar]
    rfl
  rcases h with (⟨hsmall, -⟩ | h) | ⟨hsmall, -, hk⟩ | h
  · exact hc hsmall
  · exact not_numeric_of_avoidsRanges hsource hfirst hlast h
  · rcases hascii with (hlast' | hlarge) | hkelvin
    · omega
    · omega
    · obtain ⟨rfl, rfl, rfl, rfl⟩ : first = 0x212A ∧ last = 0x212A ∧ step = 1 ∧ lower = 0x6B := by
        simpa using hkelvin
      refine hk ?_
      rw [hlower, show c.toNat - 0x212A = 0 by omega]
  · exact not_numeric_of_avoidsRanges htarget (by omega) (by omega) h

/-- Where a text or its lower case is numeric, only letters of ASCII are changed. -/
theorem lowerFrom_of_isNumeric (before : List Char) {cs : List Char}
    (h : (∀ c ∈ cs, IsNumeric c) ∨ ∀ c ∈ lowerFrom before cs, IsNumeric c) :
    lowerFrom before cs = cs.map Char.toLower := by
  induction cs generalizing before with
  | nil => rfl
  | cons c cs ih =>
    rw [lowerFrom] at h ⊢
    have hrest : (∀ x ∈ cs, IsNumeric x) ∨ ∀ x ∈ lowerFrom (c :: before) cs, IsNumeric x :=
      h.imp (fun h x hx => h x (List.mem_cons_of_mem c hx))
        fun h x hx => h x (List.mem_append_right _ hx)
    have hhead : (IsNumeric c ∨ ∀ x ∈ _, IsNumeric x) :=
      h.imp (fun h => h c List.mem_cons_self) fun h x hx => h x (List.mem_append_left _ hx)
    rw [ih (c :: before) hrest]
    refine congrArg (· ++ cs.map Char.toLower) (?_ : _ = [c.toLower])
    have hnot : ∀ x ∈ ['\u0130', 'i', '\u03A3', '\u03C2', '\u03C3'], ¬ IsNumeric x :=
      forall_mem_chars (by decide)
    split_ifs at hhead ⊢ with hascii hdotted hsigma hfinal
    · rfl
    · subst hdotted
      exact absurd (hhead.imp_right fun h => h 'i' List.mem_cons_self)
        (not_or.2 ⟨hnot _ (by decide), hnot _ (by decide)⟩)
    · subst hsigma
      exact absurd (hhead.imp_right fun h => h '\u03C2' List.mem_cons_self)
        (not_or.2 ⟨hnot _ (by decide), hnot _ (by decide)⟩)
    · subst hsigma
      exact absurd (hhead.imp_right fun h => h '\u03C3' List.mem_cons_self)
        (not_or.2 ⟨hnot _ (by decide), hnot _ (by decide)⟩)
    · have hself := lowerChar_of_isNumeric hascii (hhead.imp_right fun h => h _ List.mem_cons_self)
      rw [hself, toLower_of_not_ascii hascii]

theorem lowerCase_of_isNumeric {cs : List Char}
    (h : (∀ c ∈ cs, IsNumeric c) ∨ ∀ c ∈ lowerCase cs, IsNumeric c) :
    lowerCase cs = cs.map Char.toLower :=
  lowerFrom_of_isNumeric [] h

end RubyTokens
