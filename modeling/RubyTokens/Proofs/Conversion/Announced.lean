import RubyTokens.Proofs.Conversion.Failing

/-! Failures that a caller is told about. A conversion may refuse its input: a lexeme that the
tables do not know, or a value that is refused for what it is, such as a position, a literal or a
document without an end. Two lexemes make it fail otherwise: the end of a regular expression without
a text, whose first character is asked for, and an imaginary literal that no finite binary number is
near to. It is by the lexeme that a run stops at that the two ways of failing are told apart. -/

namespace RubyTokens

/-- Whether the failure refuses a lexeme or a value. -/
def Failure.IsAnnounced : Failure → Bool
  | .rejected _ | .position _ | .halves _ | .openEmbdoc _ _ => true
  | .literal e => e.isTextual
  | .cursor fault => fault = .backwards
  | .emptyRegexpEnd => false

namespace Lexeme

/-- The end of a regular expression without a text. -/
def IsEmptyRegexpEnd (options : Options) (l : Lexeme) : Prop :=
  Role.of options l.kind = .known .regexpEnd ∧ l.text = ""

/-- An imaginary literal whose exact number no finite binary number is near to. -/
def IsHugeImaginary (options : Options) (l : Lexeme) : Prop :=
  Role.of options l.kind = .known .imaginary ∧
    ∃ q ∈ ImaginaryLiteral.number? l.text, (Binary64.overflowBound : ℚ) ≤ |q|

end Lexeme

section

variable {lines : LineTable} {options : Options} {state : State} {l : Lexeme} {rest : List Lexeme}
variable {f : Failure}

theorem reading_of_isEmptyRegexpEnd (h : l.IsEmptyRegexpEnd options) :
    reading lines options state (l :: rest) = .error .emptyRegexpEnd := by
  have hend : Yield.regexpEnd lines l = .error .emptyRegexpEnd := by
    rw [Yield.regexpEnd, h.2]
    rfl
  rw [reading, Yield.ofLexeme, h.1]
  dsimp only [Yield.ofKind]
  rw [hend]
  rfl

theorem reading_of_imaginary {e : LiteralError} (h : Role.of options l.kind = .known .imaginary)
    (he : ImaginaryLiteral.parse l.text = .error e) :
    reading lines options state (l :: rest) = .error (.literal e) := by
  rw [reading, Yield.ofLexeme, h]
  dsimp only [Yield.ofKind, Yield.valued]
  rw [he]
  rfl

/-- A step that fails announces why, unless it is at one of the two lexemes. -/
theorem isAnnounced_iff_of_reading (h : reading lines options state (l :: rest) = .error f) :
    f.IsAnnounced = true ↔ ¬ (l.IsEmptyRegexpEnd options ∨ l.IsHugeImaginary options) := by
  constructor
  · rintro hf (hempty | ⟨hrole, hhuge⟩)
    · rw [reading_of_isEmptyRegexpEnd hempty] at h
      cases h
      cases hf
    · obtain ⟨e, he, hsize⟩ := (ImaginaryLiteral.exists_not_isTextual_iff l.text).2 hhuge
      rw [reading_of_imaginary hrole he] at h
      cases h
      rw [Failure.IsAnnounced, hsize] at hf
      cases hf
  · intro hnot
    cases arisesAt_of_reading h with
    | textual he => exact he
    | @imaginary e role value =>
      by_contra hsize
      have hhuge := (ImaginaryLiteral.exists_not_isTextual_iff l.text).1
        ⟨e, value, Bool.eq_false_iff.2 hsize⟩
      exact hnot (.inr ⟨role, hhuge⟩)
    | emptyRegexpEnd role text => exact absurd (.inl ⟨role, congrArg Text.mk text⟩) hnot
    | _ => rfl

end

namespace Job

/-- A conversion that fails announces why if, and only if, the lexeme that it stops at is neither
the end of a regular expression without a text nor an imaginary literal that is too large. -/
theorem isAnnounced_iff {j : Job} {f : Failure} (h : j.outcome = .failed f) :
    f.IsAnnounced = true ↔ ¬ ∃ l, j.run.1.cursor.current = .ok l ∧
      (l.IsEmptyRegexpEnd j.options ∨ l.IsHugeImaginary j.options) := by
  obtain ⟨he, hs⟩ := Progress.step_of_run_failed (outcome_eq_failed_iff.1 h)
  obtain ⟨w, hw⟩ := (Progress.reaches_run _ _ _).exists_isAt (Progress.start_isAt j.lexemes)
  obtain ⟨l, rest, hdrop, hr⟩ := Progress.exists_of_step_error hw he hs
  have hat : (w.cursor j.lexemes).At w.index (l :: rest) := ⟨rfl, hdrop⟩
  have hcurrent : j.run.1.cursor.current = .ok l := by
    rw [← hat.current]
    exact congrArg Cursor.current hw
  rw [isAnnounced_iff_of_reading hr, hcurrent]
  simp only [Except.ok.injEq, exists_eq_left']
  rfl

/-- An imaginary literal of 310 digits. -/
def hugeImaginary : Job :=
  let literal := '1' :: List.replicate 309 '0' ++ ['i']
  { source := ⟨"huge.rb", String.ofList (literal ++ ['\n'])⟩
    lexemes := [
      ⟨1, 0, LexemeKind.imaginary.name, ⟨literal.map .char⟩, .ended⟩,
      ⟨1, 311, LexemeKind.newline.name, "\n", .beg⟩] }

theorem isAnnounced_iff_hugeImaginary :
    hugeImaginary.outcome = .failed (.literal .integerTooLarge) ∧
      ((Failure.literal .integerTooLarge).IsAnnounced = true ↔
        ¬ ∃ l, hugeImaginary.run.1.cursor.current = .ok l ∧
          (l.IsEmptyRegexpEnd hugeImaginary.options ∨
            l.IsHugeImaginary hugeImaginary.options)) := by
  have h : hugeImaginary.outcome = .failed (.literal .integerTooLarge) := by decide +kernel
  exact ⟨h, isAnnounced_iff h⟩

/-- The end of a regular expression whose delimiter is missing. -/
def bareRegexpEnd : Job where
  source := ⟨"bare.rb", "/a"⟩
  lexemes := [
    ⟨1, 0, LexemeKind.regexpBeg.name, "/", .beg⟩,
    ⟨1, 1, LexemeKind.tstringContent.name, "a", .beg⟩,
    ⟨1, 2, LexemeKind.regexpEnd.name, "", .ended⟩]

/-- Neither lexeme is refused: the conversion fails for the number, or for the missing character. -/
theorem outcome_hugeImaginary_bareRegexpEnd :
    hugeImaginary.outcome = .failed (.literal .integerTooLarge) ∧
      (Failure.literal .integerTooLarge).IsAnnounced = false ∧
      bareRegexpEnd.outcome = .failed .emptyRegexpEnd ∧
      Failure.emptyRegexpEnd.IsAnnounced = false := by
  decide +kernel

end Job

end RubyTokens
