import Mathlib.Algebra.Order.AbsoluteValue.Basic
import Mathlib.Tactic.FieldSimp
import Mathlib.Tactic.Linarith
import Mathlib.Tactic.Ring
import RubyTokens.Proofs.Number.Rounding

/-! Rounding to the nearest number. A quotient is divided by a power of two that brings it to 53 bits
and is then rounded to an integer, of two equally near ones to the even one. No other number is nearer
to the quotient: those with a greater exponent are among the multiples of the power, and those with a
smaller one lie below the 53 bits, where the quotient does not. -/

namespace RubyTokens.Binary64

/-! ### Integers near a quotient -/

/-- The integer is at most half a unit away, and even if it is half a unit away. -/
def IsHalfEven (m : ℕ) (r : ℚ) : Prop := |m - r| ≤ 1 / 2 ∧ (|m - r| = 1 / 2 → Even m)

variable {num den m : ℕ} {e k : ℤ} {q r v : ℚ}

theorem isHalfEven_roundHalfEven (num : ℕ) (hd : 0 < den) :
    IsHalfEven (roundHalfEven num den) (num / den) := by
  have hpos : (0 : ℚ) < den := by exact_mod_cast hd
  have hdiv : (num : ℚ) = (num / den : ℕ) * den + (num % den : ℕ) := by
    exact_mod_cast (Nat.div_add_mod' num den).symm
  have hmod := Nat.mod_lt num hd
  rw [roundHalfEven, hdiv, add_div, mul_div_cancel_right₀ _ hpos.ne']
  generalize num / den = a
  generalize num % den = b at hmod ⊢
  have hle : (b : ℚ) / den ≤ 1 / 2 ↔ 2 * b ≤ den := by
    rw [div_le_div_iff₀ hpos two_pos, one_mul, mul_comm]
    norm_cast
  have hge : 1 / 2 ≤ (b : ℚ) / den ↔ den ≤ 2 * b := by
    rw [div_le_div_iff₀ two_pos hpos, one_mul, mul_comm (b : ℚ)]
    norm_cast
  have hnonneg : 0 ≤ (b : ℚ) / den := div_nonneg (Nat.cast_nonneg b) hpos.le
  rw [IsHalfEven]
  split_ifs with h
  · have hdist : |(a : ℚ) - (a + b / den)| = b / den := by
      rw [sub_add_cancel_left, abs_neg, abs_of_nonneg hnonneg]
    rw [hdist]
    refine ⟨hle.2 (by omega), fun htie => ?_⟩
    have := hge.1 htie.ge
    rw [Nat.even_iff]
    omega
  · have hone : (b : ℚ) / den < 1 := (div_lt_one hpos).2 (by exact_mod_cast hmod)
    have hdist : |((a + 1 : ℕ) : ℚ) - (a + b / den)| = 1 - b / den := by
      rw [Nat.cast_add, Nat.cast_one, add_sub_add_left_eq_sub, abs_of_pos (sub_pos.2 hone)]
    have hhalf := hge.2 (by omega)
    rw [hdist]
    refine ⟨by linarith, fun htie => ?_⟩
    have := hle.1 (by linarith)
    rw [Nat.even_iff]
    omega

/-- No integer is nearer. -/
theorem IsHalfEven.nearest (h : IsHalfEven m r) (k : ℤ) :
    |m - r| ≤ |k - r| ∧ (|m - r| = |k - r| → k = m ∨ Even m) := by
  by_cases hk : k = m
  · simp [hk]
  have hunit : (1 : ℚ) ≤ |(k : ℚ) - m| := by
    have hne : k - m ≠ 0 := sub_ne_zero.2 hk
    exact_mod_cast Int.one_le_abs hne
  have htriangle : |(k : ℚ) - m| ≤ |k - r| + |m - r| := by
    rw [abs_sub_comm (m : ℚ) r]
    exact abs_sub_le _ _ _
  have hhalf := h.1
  refine ⟨by linarith, fun heq => .inr (h.2 (by linarith))⟩

theorem IsHalfEven.le_of_lt (h : IsHalfEven m r) {n : ℕ} (hr : r < n) : m ≤ n := by
  have := (abs_le.1 h.1).2
  have hlt : (m : ℚ) < (n + 1 : ℕ) := by
    push_cast
    linarith
  exact Nat.le_of_lt_succ (by exact_mod_cast hlt)

theorem IsHalfEven.le_of_le (h : IsHalfEven m r) {n : ℕ} (hr : n ≤ r) : n ≤ m := by
  have := (abs_le.1 h.1).1
  have hlt : (n : ℚ) < (m + 1 : ℕ) := by
    push_cast
    linarith
  exact Nat.le_of_lt_succ (by exact_mod_cast hlt)

/-! ### Values -/

/-- The sign as a factor. -/
def sign (negative : Bool) : ℚ := if negative then -1 else 1

/-- The value of a finite number. -/
def toRat : Binary64 → ℚ
  | finite negative m e => sign negative * (m * 2 ^ e)
  | _ => 0

/-- The numbers that there are: a significand has 53 bits, or fewer at the least exponent. -/
def IsCanonical : Binary64 → Prop
  | finite _ m e => m < 2 ^ 53 ∧ leastExponent ≤ e ∧ e ≤ greatestExponent ∧
      (2 ^ 52 ≤ m ∨ e = leastExponent)
  | _ => False

def HasEvenSignificand : Binary64 → Prop
  | finite _ m _ => Even m
  | _ => False

/-- The finite number is as near as any other, and of two that are equally near it is the one with
the even significand. -/
structure IsNearest (x : Binary64) (q : ℚ) : Prop where
  isCanonical : x.IsCanonical
  nearest : ∀ y : Binary64, y.IsCanonical → |x.toRat - q| ≤ |y.toRat - q| ∧
    (|x.toRat - q| = |y.toRat - q| → y.toRat = x.toRat ∨ x.HasEvenSignificand)

theorem sign_cases (negative : Bool) : sign negative = 1 ∨ sign negative = -1 := by
  cases negative with
  | false => exact .inl rfl
  | true => exact .inr rfl

theorem abs_sign (negative : Bool) : |sign negative| = 1 := by
  rcases sign_cases negative with h | h <;> simp [h]

theorem sign_mul_self (negative : Bool) : sign negative * sign negative = 1 := by
  rcases sign_cases negative with h | h <;> simp [h]

/-- A sign changes sides. -/
theorem abs_sign_mul_sub (negative : Bool) (v q : ℚ) :
    |v - sign negative * q| = |sign negative * v - q| := by
  have h : v - sign negative * q = sign negative * (sign negative * v - q) := by
    rw [mul_sub, ← mul_assoc, sign_mul_self, one_mul]
  rw [h, abs_mul, abs_sign, one_mul]

/-- What a number can be, seen from an exponent: a multiple of the power of two, or too small for a
significand of 53 bits with it. -/
def OnGrid (e : ℤ) (v : ℚ) : Prop :=
  (∃ k : ℤ, v = k * 2 ^ e) ∨ leastExponent < e ∧ |v| < 2 ^ (52 + e)

theorem OnGrid.sign_mul (h : OnGrid e v) (negative : Bool) : OnGrid e (sign negative * v) := by
  rcases h with ⟨k, rfl⟩ | ⟨hleast, hv⟩
  · rcases sign_cases negative with h | h
    · exact .inl ⟨k, by rw [h, one_mul]⟩
    · exact .inl ⟨-k, by rw [h]; push_cast; ring⟩
  · exact .inr ⟨hleast, by rwa [abs_mul, abs_sign, one_mul]⟩

theorem IsCanonical.onGrid {y : Binary64} (h : y.IsCanonical) (e : ℤ) : OnGrid e y.toRat := by
  cases y with
  | infinite negative => cases h
  | nan => cases h
  | finite negative m e' =>
    obtain ⟨hm, hleast, -, -⟩ := h
    refine OnGrid.sign_mul ?_ negative
    rcases le_or_gt e e' with hle | hlt
    · obtain ⟨n, rfl⟩ := Int.exists_add_of_le hle
      refine .inl ⟨m * 2 ^ n, ?_⟩
      rw [zpow_add₀ two_ne_zero, zpow_natCast]
      push_cast
      ring
    · refine .inr ⟨lt_of_le_of_lt hleast hlt, ?_⟩
      have hpos : (0 : ℚ) < 2 ^ e' := zpow_pos two_pos e'
      calc |(m : ℚ) * 2 ^ e'| = m * 2 ^ e' := abs_of_nonneg (mul_nonneg (Nat.cast_nonneg m) hpos.le)
        _ < 2 ^ 53 * 2 ^ e' := mul_lt_mul_of_pos_right (by exact_mod_cast hm) hpos
        _ = 2 ^ (53 + e') := by rw [zpow_add₀ two_ne_zero, zpow_ofNat]
        _ ≤ 2 ^ (52 + e) := zpow_le_zpow_right₀ one_le_two (by omega)

/-! ### The nearest number -/

/-- No number is nearer than a multiple that is rounded to an even one, at an exponent that gives
the quotient 53 bits. -/
theorem IsHalfEven.nearest_onGrid (h : IsHalfEven m (q / 2 ^ e))
    (hq : e = leastExponent ∨ 2 ^ (52 + e) ≤ q) (hv : OnGrid e v) :
    |m * 2 ^ e - q| ≤ |v - q| ∧ (|m * 2 ^ e - q| = |v - q| → v = m * 2 ^ e ∨ Even m) := by
  have hpos : (0 : ℚ) < 2 ^ e := zpow_pos two_pos e
  have hscale : ∀ a : ℚ, |a * 2 ^ e - q| = |a - q / 2 ^ e| * 2 ^ e := fun a => by
    rw [← abs_of_pos hpos, ← abs_mul, abs_of_pos hpos, sub_mul, div_mul_cancel₀ _ hpos.ne']
  rcases hv with ⟨k, rfl⟩ | ⟨hleast, hbelow⟩
  · obtain ⟨hle, htie⟩ := h.nearest k
    rw [hscale, hscale]
    refine ⟨mul_le_mul_of_nonneg_right hle hpos.le, fun heq => ?_⟩
    rcases htie (mul_right_cancel₀ hpos.ne' heq) with rfl | heven
    · exact .inl (by rw [Int.cast_natCast])
    · exact .inr heven
  · have hlarge := hq.resolve_left hleast.ne'
    have hsplit : (2 : ℚ) ^ (52 + e) = ((2 ^ 52 : ℤ) : ℚ) * 2 ^ e := by
      rw [zpow_add₀ two_ne_zero, zpow_ofNat]
      norm_cast
    -- The least multiple with 53 bits lies between the value and the quotient.
    have hnear : |m * 2 ^ e - q| ≤ q - 2 ^ (52 + e) := by
      rw [hscale, ← abs_of_nonneg (sub_nonneg.2 hlarge), abs_sub_comm q, hsplit, hscale]
      exact mul_le_mul_of_nonneg_right (h.nearest (2 ^ 52)).1 hpos.le
    have hfar : q - 2 ^ (52 + e) < |v - q| := by
      have := (abs_lt.1 hbelow).2
      have := neg_abs_le (v - q)
      linarith
    exact ⟨(hnear.trans_lt hfar).le, fun heq => absurd heq (hnear.trans_lt hfar).ne⟩

/-- A quotient is nearest to a number that has the value of the multiple, and an even significand if
the multiple is an even one. -/
theorem IsHalfEven.isNearest (h : IsHalfEven m (q / 2 ^ e))
    (hq : e = leastExponent ∨ 2 ^ (52 + e) ≤ q) (negative : Bool) {m' : ℕ} {e' : ℤ}
    (hcanonical : (finite negative m' e').IsCanonical)
    (hvalue : (m' : ℚ) * 2 ^ e' = m * 2 ^ e) (heven : Even m → Even m') :
    (finite negative m' e').IsNearest (sign negative * q) := by
  refine ⟨hcanonical, fun y hy => ?_⟩
  have hx : sign negative * (finite negative m' e').toRat = m * 2 ^ e := by
    rw [toRat, ← mul_assoc, sign_mul_self, one_mul, hvalue]
  obtain ⟨hle, htie⟩ := h.nearest_onGrid hq ((hy.onGrid e).sign_mul negative)
  rw [abs_sign_mul_sub, abs_sign_mul_sub, hx]
  refine ⟨hle, fun heq => (htie heq).imp (fun hsame => ?_) heven⟩
  rw [← hx] at hsame
  have hsign : sign negative ≠ 0 := left_ne_zero_of_mul_eq_one (sign_mul_self negative)
  exact mul_left_cancel₀ hsign hsame

theorem isNearest_zero (negative : Bool) : (zero negative).IsNearest 0 := by
  have hvalue : (zero negative).toRat = 0 := by simp [zero, toRat]
  refine ⟨⟨by decide, le_refl _, by decide, .inr rfl⟩, fun y _ => ?_⟩
  rw [hvalue, sub_self, abs_zero]
  exact ⟨abs_nonneg _, fun _ => .inr ⟨0, rfl⟩⟩

/-- A quotient with a finite result is brought to the number nearest to it. -/
theorem isNearest_ofQuotient (negative : Bool) (hd : 0 < den)
    (h : (ofQuotient negative num den).isInfinite = false) :
    (ofQuotient negative num den).IsNearest (sign negative * (num / den)) := by
  by_cases hn : num = 0
  · have hzero : sign negative * ((0 : ℕ) / den) = 0 := by simp
    rw [hn, hzero]
    exact isNearest_zero negative
  obtain ⟨hleast, hlow, hhigh⟩ := exponentOf_bounds hn hd
  have hround := isHalfEven_roundHalfEven (scaleDown num den (exponentOf num den)).1
    (scaleDown_pos num hd (exponentOf num den))
  rw [scaleDown_div] at hround
  revert h
  rw [ofQuotient, if_neg hn]
  dsimp only
  rw [Nat.one_shiftLeft, Nat.one_shiftLeft]
  generalize exponentOf num den = e at hround hleast hlow hhigh ⊢
  generalize roundHalfEven (scaleDown num den e).1 (scaleDown num den e).2 = m at hround ⊢
  have hpos : (0 : ℚ) < 2 ^ e := zpow_pos two_pos e
  have hsplit : ∀ n : ℕ, (2 : ℚ) ^ (n + e) = (2 ^ n : ℕ) * 2 ^ e := fun n => by
    rw [zpow_add₀ two_ne_zero, zpow_natCast]
    norm_cast
  have hmost : m ≤ 2 ^ 53 := hround.le_of_lt ((div_lt_iff₀ hpos).2 ((hsplit 53).symm ▸ hhigh))
  have hleft : 2 ^ 52 ≤ m ∨ e = leastExponent := hlow.symm.imp_left fun hlarge =>
    hround.le_of_le ((le_div_iff₀ hpos).2 ((hsplit 52).symm ▸ hlarge))
  by_cases hcarry : m = 2 ^ 53
  · rw [if_pos hcarry]
    dsimp only
    split_ifs with hgreat
    · intro hfinite
      cases hfinite
    · intro _
      refine hround.isNearest hlow negative ⟨by decide, by omega, by omega, .inl (le_refl _)⟩ ?_ ?_
      · rw [hcarry, zpow_add_one₀ two_ne_zero]
        push_cast
        ring
      · exact fun _ => by decide
  · rw [if_neg hcarry]
    dsimp only
    split_ifs with hgreat
    · intro hfinite
      cases hfinite
    · intro _
      exact hround.isNearest hlow negative ⟨by omega, hleast, by omega, hleft⟩ rfl id

end RubyTokens.Binary64
