import Mathlib.Algebra.Order.Field.Basic
import Mathlib.Algebra.Order.Field.Power
import Mathlib.Algebra.Order.Field.Rat
import RubyTokens.Number.Binary64

/-! Quotients without a finite result. The exponent of a quotient is found from the lengths of its
two numbers, one of two candidates; between those a comparison decides, so the exponent reaches a
bound exactly if the quotient reaches the power of two that belongs to it. At the greatest exponent
it is the rounding that decides: the least quotient that goes up to the next power of two lies half
a unit below that, and is the least one without a finite result. -/

namespace RubyTokens.Binary64

variable {num den k e : Nat}

/-- The least quotient that is rounded to infinity. -/
def overflowBound : Nat := (2 ^ 54 - 1) * 2 ^ 970

/-! ### The exponent -/

theorem scaleDown_pos (num : ℕ) (hd : 0 < den) (e : ℤ) : 0 < (scaleDown num den e).2 := by
  unfold scaleDown
  split_ifs
  · rw [Nat.shiftLeft_eq]
    exact Nat.mul_pos hd (Nat.two_pow_pos _)
  · exact hd

theorem scaleDown_div (num den : ℕ) (e : ℤ) :
    ((scaleDown num den e).1 : ℚ) / (scaleDown num den e).2 = num / den / 2 ^ e := by
  unfold scaleDown
  split_ifs with he
  · obtain ⟨n, rfl⟩ := Int.eq_ofNat_of_zero_le he
    rw [Int.toNat_natCast, Nat.shiftLeft_eq, zpow_natCast]
    push_cast
    rw [div_mul_eq_div_div]
  · obtain ⟨n, rfl⟩ : ∃ n : ℕ, e = -n := ⟨(-e).toNat, by omega⟩
    rw [neg_neg, Int.toNat_natCast, Nat.shiftLeft_eq, zpow_neg, zpow_natCast, div_inv_eq_mul]
    push_cast
    rw [div_mul_eq_mul_div]

/-- The two lengths tell the quotient up to a factor of four. -/
theorem quotient_bounds (hn : num ≠ 0) (hd : 0 < den) :
    (2 : ℚ) ^ (51 + ((num.log2 : ℤ) - den.log2 - 52)) < num / den ∧
      (num : ℚ) / den < 2 ^ (53 + ((num.log2 : ℤ) - den.log2 - 52)) := by
  have hpos : (0 : ℚ) < den := by exact_mod_cast hd
  have hnum : (2 : ℚ) ^ num.log2 ≤ num := by exact_mod_cast Nat.log2_self_le hn
  have hnum' : (num : ℚ) < 2 ^ (num.log2 + 1) := by exact_mod_cast Nat.lt_log2_self
  have hden : (2 : ℚ) ^ den.log2 ≤ den := by exact_mod_cast Nat.log2_self_le hd.ne'
  have hden' : (den : ℚ) < 2 ^ (den.log2 + 1) := by exact_mod_cast Nat.lt_log2_self
  have htwo : ∀ n : ℕ, (0 : ℚ) < 2 ^ n := fun n => pow_pos two_pos n
  have hsplit : ∀ a b : ℕ, (2 : ℚ) ^ ((a : ℤ) - b) = 2 ^ a / 2 ^ b := fun a b => by
    rw [zpow_sub₀ two_ne_zero, zpow_natCast, zpow_natCast]
  have hlow : 51 + ((num.log2 : ℤ) - den.log2 - 52) = num.log2 - (den.log2 + 1 : ℕ) := by omega
  have hhigh : 53 + ((num.log2 : ℤ) - den.log2 - 52) = (num.log2 + 1 : ℕ) - den.log2 := by omega
  rw [hlow, hhigh, hsplit, hsplit]
  constructor
  · calc (2 : ℚ) ^ num.log2 / 2 ^ (den.log2 + 1)
        < 2 ^ num.log2 / den := div_lt_div_of_pos_left (htwo _) hpos hden'
      _ ≤ num / den := div_le_div_of_nonneg_right hnum hpos.le
  · calc (num : ℚ) / den
        < 2 ^ (num.log2 + 1) / den := div_lt_div_of_pos_right hnum' hpos
      _ ≤ 2 ^ (num.log2 + 1) / 2 ^ den.log2 :=
          div_le_div_of_nonneg_left (htwo _).le (htwo _) hden

/-- The exponent is the one that gives the quotient 53 bits, or the least one if that is greater. -/
theorem exponentOf_spec (hn : num ≠ 0) (hd : 0 < den) : ∃ c, exponentOf num den =
    max leastExponent c ∧ (2 : ℚ) ^ (52 + c) ≤ num / den ∧ (num : ℚ) / den < 2 ^ (53 + c) := by
  obtain ⟨hlow, hhigh⟩ := quotient_bounds hn hd
  have hcompare : ∀ e, (scaleDown num den e).2 <<< 52 ≤ (scaleDown num den e).1 ↔
      (2 : ℚ) ^ (52 + e) ≤ num / den := fun e => by
    have hscaled : (0 : ℚ) < (scaleDown num den e).2 := by exact_mod_cast scaleDown_pos num hd e
    rw [zpow_add₀ two_ne_zero, ← le_div_iff₀ (zpow_pos two_pos e), ← scaleDown_div,
      le_div_iff₀ hscaled, zpow_ofNat, Nat.shiftLeft_eq, mul_comm]
    norm_cast
  rw [exponentOf]
  dsimp only
  generalize (num.log2 : ℤ) - den.log2 - 52 = e at hlow hhigh ⊢
  split_ifs with h <;> rw [hcompare] at h
  · exact ⟨e, rfl, h, hhigh⟩
  · have hlow' : 52 + (e - 1) = 51 + e := by omega
    have hhigh' : 53 + (e - 1) = 52 + e := by omega
    exact ⟨e - 1, rfl, hlow' ▸ hlow.le, hhigh' ▸ not_le.1 h⟩

/-- At the exponent of a quotient its significand has 53 bits, or it is the least exponent. -/
theorem exponentOf_bounds (hn : num ≠ 0) (hd : 0 < den) : leastExponent ≤ exponentOf num den ∧
    (exponentOf num den = leastExponent ∨ (2 : ℚ) ^ (52 + exponentOf num den) ≤ num / den) ∧
    (num : ℚ) / den < 2 ^ (53 + exponentOf num den) := by
  obtain ⟨c, hc, hlow, hhigh⟩ := exponentOf_spec hn hd
  refine ⟨hc ▸ le_max_left _ _, ?_, hhigh.trans_le (zpow_le_zpow_right₀ one_le_two (by omega))⟩
  rcases max_choice leastExponent c with hmax | hmax
  · exact .inl (hc.trans hmax)
  · exact .inr (by rwa [hc, hmax])

theorem two_zpow_le_div_iff (hd : 0 < den) :
    (2 : ℚ) ^ (k : ℤ) ≤ num / den ↔ den * 2 ^ k ≤ num := by
  have hpos : (0 : ℚ) < den := by exact_mod_cast hd
  rw [zpow_natCast, le_div_iff₀' hpos]
  norm_cast

/-- The exponent is at least `e` exactly if the quotient is at least `2 ^ (52 + e)`. -/
theorem le_exponentOf_iff (hn : num ≠ 0) (hd : 0 < den) :
    (e : Int) ≤ exponentOf num den ↔ den * 2 ^ (52 + e) ≤ num := by
  obtain ⟨c, hc, hlow, hhigh⟩ := exponentOf_spec hn hd
  have hleast : leastExponent < e := by
    rw [leastExponent]
    omega
  rw [← two_zpow_le_div_iff hd, hc, le_max_iff, or_iff_right (not_le.2 hleast)]
  constructor
  · intro hle
    exact (zpow_le_zpow_right₀ one_le_two (by omega)).trans hlow
  · intro hle
    by_contra hlt
    exact absurd (hle.trans_lt hhigh) (not_lt.2 (zpow_le_zpow_right₀ one_le_two (by omega)))

/-! ### Rounding at the greatest exponent -/

/-- A fraction below `2 ^ 53` is rounded up to it if it lies half a unit below it or less. -/
theorem roundHalfEven_eq_iff (hd : 0 < den) (h : num < 2 ^ 53 * den) :
    roundHalfEven num den = 2 ^ 53 ↔ (2 ^ 54 - 1) * den ≤ 2 * num := by
  have hdiv := Nat.div_add_mod num den
  have hmod := Nat.mod_lt num hd
  have hq : num / den < 2 ^ 53 := (Nat.div_lt_iff_lt_mul hd).2 h
  rw [roundHalfEven]
  generalize num / den = q at *
  generalize num % den = r at *
  rcases Nat.lt_or_ge (q + 1) (2 ^ 53) with hlt | hge
  · -- even rounded up it stays below
    have hbelow : den * (q + 1) ≤ den * (2 ^ 53 - 1) := Nat.mul_le_mul_left _ (by omega)
    rw [Nat.mul_succ] at hbelow
    split_ifs <;> omega
  · -- the greatest integer part is odd, so a half goes up
    have hgreatest : q = 2 ^ 53 - 1 := by omega
    have hproduct : den * q = den * (2 ^ 53 - 1) := congrArg _ hgreatest
    split_ifs <;> omega

/-! ### Quotients -/

theorem scaleDown_natCast (num den e : Nat) : scaleDown num den e = (num, den * 2 ^ e) := by
  rw [scaleDown, if_pos (Int.natCast_nonneg e), Int.toNat_natCast, Nat.shiftLeft_eq]

/-- A quotient has no finite result if its exponent is too great, or is made so by rounding. -/
theorem isInfinite_ofQuotient (negative : Bool) (hn : num ≠ 0) :
    (ofQuotient negative num den).isInfinite = true ↔ 971 < exponentOf num den ∨
      exponentOf num den = 971 ∧ roundHalfEven num (den * 2 ^ 971) = 2 ^ 53 := by
  have hinfinite (m : Nat) (e : Int) :
      (if 971 < e then infinite negative else finite negative m e).isInfinite = true ↔ 971 < e := by
    split_ifs with he <;> simp [isInfinite, he]
  have hround : exponentOf num den = 971 → roundHalfEven num (den * 2 ^ 971) =
      roundHalfEven (scaleDown num den (exponentOf num den)).1
        (scaleDown num den (exponentOf num den)).2 := by
    intro he
    have hscale := scaleDown_natCast num den 971
    rw [Nat.cast_ofNat] at hscale
    rw [he, hscale]
  rw [ofQuotient, if_neg hn]
  dsimp only
  rw [Nat.one_shiftLeft, greatestExponent]
  by_cases hm : roundHalfEven (scaleDown num den (exponentOf num den)).1
      (scaleDown num den (exponentOf num den)).2 = 2 ^ 53
  · rw [if_pos hm, hinfinite]
    omega
  · rw [if_neg hm, hinfinite]
    omega

/-- A quotient has no finite result if, and only if, it reaches the bound. -/
theorem isInfinite_ofQuotient_iff (negative : Bool) (hd : 0 < den) :
    (ofQuotient negative num den).isInfinite = true ↔ overflowBound * den ≤ num := by
  have hbound : den * 2 ^ 1023 < overflowBound * den ∧ overflowBound * den ≤ den * 2 ^ 1024 := by
    have hless : 2 ^ 1023 < overflowBound ∧ overflowBound ≤ 2 ^ 1024 := by decide +kernel
    rw [Nat.mul_comm overflowBound]
    exact ⟨Nat.mul_lt_mul_of_pos_left hless.1 hd, Nat.mul_le_mul_left _ hless.2⟩
  by_cases hn : num = 0
  · subst hn
    have hpos : 0 < overflowBound * den := Nat.lt_of_le_of_lt (Nat.zero_le _) hbound.1
    rw [ofQuotient, if_pos rfl]
    exact ⟨nofun, fun h => by omega⟩
  have hgreat := le_exponentOf_iff (e := 971) hn hd
  have hgreater := le_exponentOf_iff (e := 972) hn hd
  rw [isInfinite_ofQuotient negative hn]
  rcases Int.lt_trichotomy (exponentOf num den) 971 with hlt | heq | hgt
  · have hsmall : num < den * 2 ^ 1023 := by omega
    exact ⟨fun h => by omega, fun h => by omega⟩
  · have hpos : 0 < den * 2 ^ 971 := by omega
    have hless : num < 2 ^ 53 * (den * 2 ^ 971) := by omega
    have hdouble : (2 ^ 54 - 1) * (den * 2 ^ 971) = 2 * (overflowBound * den) := by
      rw [overflowBound]
      omega
    have hround := roundHalfEven_eq_iff hpos hless
    rw [hdouble] at hround
    rw [hround]
    omega
  · have hlarge : den * 2 ^ 1024 ≤ num := by omega
    exact ⟨fun _ => Nat.le_trans hbound.2 hlarge, fun _ => .inl hgt⟩

end RubyTokens.Binary64
