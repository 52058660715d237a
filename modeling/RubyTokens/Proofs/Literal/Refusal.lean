import Mathlib.Algebra.Order.Ring.Rat
import Mathlib.Algebra.Order.Field.Rat
import RubyTokens.Literal.Imaginary
import RubyTokens.Literal.Special
import RubyTokens.Proofs.Number.Rounding

/-! Why a literal is refused. Integers, decimals, rationals and match groups are refused for their
text only: they are exact, or rounded to infinity. An imaginary literal is read as an exact number
first and then brought to binary, and it is refused for its size, too: if the exact number reaches
the bound from which on nothing finite is near. -/

namespace RubyTokens

/-! ### Chains that fail -/

/-- All errors of a computation satisfy a property. -/
def Fails {ε α : Type} (P : ε → Prop) (x : Except ε α) : Prop := ∀ e, x = .error e → P e

section

variable {ε ε' α β : Type} {P : ε → Prop} {Q : ε' → Prop} {x : Except ε α}

theorem fails_ok (a : α) : Fails P (.ok a) := nofun

theorem fails_error {e : ε} (h : P e) : Fails P (.error e : Except ε α) := by
  intro e' he
  cases he
  exact h

theorem fails_true (x : Except ε α) : Fails (fun _ => True) x := fun _ _ => trivial

theorem Fails.bind {g : α → Except ε β} (hx : Fails P x)
    (hg : ∀ a, x = .ok a → Fails P (g a)) : Fails P (x >>= g) := by
  cases x with
  | error e => exact fails_error (hx e rfl)
  | ok a => exact hg a rfl

theorem Fails.mapError {f : ε → ε'} (hx : Fails P x) (h : ∀ e, P e → Q (f e)) :
    Fails Q (x.mapError f) := by
  cases x with
  | error e => exact fails_error (h e (hx e rfl))
  | ok a => exact fails_ok a

theorem Fails.map {f : α → β} (hx : Fails P x) : Fails P (x.map f) := by
  cases x with
  | error e => exact fails_error (hx e rfl)
  | ok a => exact fails_ok (f a)

end

/-! ### Texts at fault -/

/-- A reading that is refused is refused for its text. -/
def FailsTextually {α : Type} (x : Except LiteralError α) : Prop := Fails (·.isTextual = true) x

/-- A text is refused for its fault, or it is read. -/
theorem FailsTextually.refused_iff {α : Type} {x : Except LiteralError α} (h : FailsTextually x) :
    (∃ e, x = .error e ∧ e.isTextual = true) ↔ ¬ ∃ a, x = .ok a := by
  cases x with
  | error e => simpa using h e rfl
  | ok a => simp

theorem failsTextually_readNumeral (radix : ℕ) (cs : List Char) (obscured : List CodePoint) :
    FailsTextually (readNumeral radix cs obscured) := by
  unfold readNumeral
  split
  · exact fails_ok _
  · exact fails_error rfl
  · exact fails_error rfl

theorem IntegerLiteral.failsTextually_parse (text : Text) : FailsTextually (parse text) := by
  unfold parse
  dsimp only
  split
  · exact Fails.map (failsTextually_readNumeral _ _ _)
  · exact fails_error rfl

theorem FloatLiteral.failsTextually_parse (text : Text) : FailsTextually (parse text) := by
  unfold parse
  split
  · exact fails_ok _
  · exact fails_error rfl

theorem DecimalForm.failsTextually_toRat (d : DecimalForm) : FailsTextually d.toRat := by
  refine Fails.bind (failsTextually_readNumeral _ _ _) fun whole _ => ?_
  dsimp only
  split
  · exact fails_ok _
  · exact Fails.bind (failsTextually_readNumeral _ _ _) fun part _ => fails_ok _

theorem RationalLiteral.failsTextually_parse (text : Text) : FailsTextually (parse text) := by
  unfold parse
  dsimp only
  split
  · exact fails_error rfl
  · split_ifs
    · split
      next d _ =>
        split_ifs
        · exact fails_error rfl
        · exact d.failsTextually_toRat
      next => exact fails_error rfl
    · exact Fails.map (Fails.bind (IntegerLiteral.failsTextually_parse _) fun n _ => fails_ok _)

theorem failsTextually_groupNumber? (text : Text) : FailsTextually (groupNumber? text) := by
  unfold groupNumber?
  split
  · split_ifs
    · exact Fails.map (failsTextually_readNumeral _ _ _)
    · exact fails_ok _
  · exact fails_ok _

/-! ### Numbers at fault -/

namespace Binary64

theorem overflowBound_le_abs_iff (q : ℚ) :
    (overflowBound : ℚ) ≤ |q| ↔ overflowBound * q.den ≤ q.num.natAbs := by
  rw [Rat.abs_def, Rat.divInt_eq_div, le_div_iff₀ (by exact_mod_cast q.den_pos)]
  norm_cast

theorem ite_eq_error_iff {b : Prop} [Decidable b] {a e : LiteralError} {x : Binary64} :
    (if b then .error a else .ok x : Except LiteralError Binary64) = .error e ↔ e = a ∧ b := by
  split_ifs with h
  · exact ⟨fun he => ⟨(Except.error.inj he).symm, h⟩, fun he => by rw [he.1]⟩
  · exact ⟨nofun, fun he => absurd he.2 h⟩

theorem ofRat?_eq_error_iff {q : ℚ} {e : LiteralError} :
    ofRat? q = .error e ↔ e = .quotientTooLarge ∧ (overflowBound : ℚ) ≤ |q| := by
  rw [overflowBound_le_abs_iff, ← isInfinite_ofQuotient_iff (q.num < 0) q.den_pos]
  exact ite_eq_error_iff

theorem ofInt?_eq_error_iff {n : Int} {e : LiteralError} :
    ofInt? n = .error e ↔ e = .integerTooLarge ∧ (overflowBound : ℚ) ≤ |(n : ℚ)| := by
  have hbound := overflowBound_le_abs_iff (n : ℚ)
  rw [Rat.den_intCast, Rat.num_intCast] at hbound
  rw [hbound, ← isInfinite_ofQuotient_iff (n < 0) Nat.one_pos]
  exact ite_eq_error_iff

end Binary64

namespace ImaginaryLiteral

/-- The exact number in front of the mark: a rational or an integer, but not a decimal. -/
def number? (text : Text) : Option ℚ :=
  (RationalLiteral.beforeMark? 'i' text).bind fun body =>
    if body.points.getLast? = some (.char 'r') then (RationalLiteral.parse body).toOption
    else (IntegerLiteral.parse body).toOption.map (↑)

/-- An imaginary literal is refused for its size if, and only if, its exact number reaches the
bound. -/
theorem exists_not_isTextual_iff (text : Text) :
    (∃ e, parse text = .error e ∧ e.isTextual = false) ↔
      ∃ q ∈ number? text, (Binary64.overflowBound : ℚ) ≤ |q| := by
  have hnone {x : Except LiteralError Binary64} (h : FailsTextually x) :
      (∃ e, x = .error e ∧ e.isTextual = false) ↔ ∃ q ∈ (none : Option ℚ),
        (Binary64.overflowBound : ℚ) ≤ |q| := by
    refine ⟨fun ⟨e, he, hfalse⟩ => ?_, nofun⟩
    rw [h e he] at hfalse
    cases hfalse
  have hsome {x : Except LiteralError Binary64} {tooLarge : LiteralError} {q : ℚ}
      (hlarge : tooLarge.isTextual = false)
      (h : ∀ {e}, x = .error e ↔ e = tooLarge ∧ (Binary64.overflowBound : ℚ) ≤ |q|) :
      (∃ e, x = .error e ∧ e.isTextual = false) ↔ ∃ q' ∈ some q,
        (Binary64.overflowBound : ℚ) ≤ |q'| := by
    simp only [h, Option.mem_some_iff, exists_eq_left']
    exact ⟨fun ⟨_, he, _⟩ => he.2, fun hq => ⟨_, ⟨rfl, hq⟩, hlarge⟩⟩
  unfold parse number?
  cases RationalLiteral.beforeMark? 'i' text with
  | none => exact hnone (fails_error rfl)
  | some body =>
    simp only [Option.bind_some]
    split_ifs with hr
    · have htext := RationalLiteral.failsTextually_parse body
      cases hq : RationalLiteral.parse body with
      | error e => exact hnone (fails_error (htext e hq))
      | ok q => exact hsome rfl Binary64.ofRat?_eq_error_iff
    · cases hn : IntegerLiteral.parse body with
      | error e => exact hnone (FloatLiteral.failsTextually_parse body)
      | ok n => exact hsome rfl Binary64.ofInt?_eq_error_iff

end ImaginaryLiteral

end RubyTokens
