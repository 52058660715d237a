import RubyTokens.Proofs.Conversion.Rendering

/-! Openers of heredocs. An opener is `<<`, a mark of indentation, and the name of the heredoc, which
may be quoted. The mark that an opener yields ends before the first letter or underscore of ASCII. A
name can begin with another character, and then the mark goes on into the name. -/

namespace RubyTokens

/-! ### The end of the mark -/

/-- The mark goes on behind the point. -/
def CodePoint.InMark (p : CodePoint) : Prop := p ≠ .char '\n' ∧ isNameStart p.toChar = false

instance : DecidablePred CodePoint.InMark := fun _ => inferInstanceAs (Decidable (_ ∧ _))

variable {ps qs : List CodePoint}

theorem beforeName?_append (h : ∀ p ∈ ps, p.InMark) (qs : List CodePoint) :
    beforeName? (ps ++ qs) = (beforeName? qs).map (ps ++ ·) := by
  induction ps with
  | nil => simp
  | cons p ps ih =>
    obtain ⟨⟨hbreak, hstart⟩, hps⟩ := List.forall_mem_cons.1 h
    simp [beforeName?, hbreak, hstart, ih hps, Function.comp_def]

theorem beforeName?_eq_none (h : ∀ p ∈ ps, p.InMark) : beforeName? ps = none := by
  simpa [beforeName?] using beforeName?_append h []

/-- In front of points without letters the first letter of the name is found, if it has one. -/
theorem beforeName?_name (h : .char '\n' ∉ ps) (hqs : ∀ p ∈ qs, p.InMark) :
    beforeName? (ps ++ qs) = if ps.any (isNameStart ·.toChar) then
      some (ps.takeWhile (!isNameStart ·.toChar)) else none := by
  induction ps with
  | nil => simp [beforeName?_eq_none hqs]
  | cons p ps ih =>
    rw [List.mem_cons, not_or] at h
    rw [List.cons_append, beforeName?, ih h.2, if_neg (Ne.symm h.1)]
    cases hp : isNameStart p.toChar with
    | true => simp [hp]
    | false => cases hps : ps.any (isNameStart ·.toChar) <;> simp [hp, hps]

/-! ### Openers -/

inductive Indentation where
  | flush
  | indented
  | dedented
  deriving DecidableEq, Repr

/-- What stands behind `<<`. -/
def Indentation.points : Indentation → List CodePoint
  | flush => []
  | indented => [.char '-']
  | dedented => [.char '~']

inductive Quotation where
  | bare
  | double
  | single
  | command
  deriving DecidableEq, Repr

/-- What stands on either side of the name. -/
def Quotation.points : Quotation → List CodePoint
  | bare => []
  | double => [.char doubleQuote]
  | single => [.char '\'']
  | command => [.char (Char.ofNat 0x60)]

/-- A letter, a digit, an underscore or any point beyond ASCII. -/
def CodePoint.isNamePart (p : CodePoint) : Bool :=
  isNameStart p.toChar || p.toChar.isDigit || 0x80 ≤ p.toNat

structure HeredocOpener where
  indentation : Indentation
  quotation : Quotation
  name : List CodePoint
  name_ne_nil : name ≠ []
  unbroken : .char '\n' ∉ name
  unclosed : ∀ p ∈ quotation.points, p ∉ name
  /-- A name without quotes is an identifier. -/
  identifier : quotation = .bare →
    (∀ p ∈ name, p.isNamePart) ∧ ∀ p ∈ name.head?, ¬ p.toChar.isDigit

namespace HeredocOpener

variable (o : HeredocOpener)

/-- The punctuation before the name. -/
def mark : Text := ⟨[.char '<', .char '<'] ++ o.indentation.points ++ o.quotation.points⟩

def text : Text := ⟨o.mark.points ++ o.name ++ o.quotation.points⟩

theorem mark_points : ∀ p ∈ o.mark.points, p.InMark := by
  rw [mark]
  cases o.indentation <;> cases o.quotation <;> decide

/-- The mark goes on to the first letter or underscore of the name, and over the whole opener if the
name has none. -/
theorem heredocMark_text : heredocMark o.text = if o.name.any (isNameStart ·.toChar) then
    ⟨o.mark.points ++ o.name.takeWhile (!isNameStart ·.toChar)⟩ else o.text := by
  obtain ⟨ps, hps⟩ : ∃ ps, o.mark.points = .char '<' :: ps := ⟨_, rfl⟩
  have hmark : ∀ p ∈ ps, p.InMark := fun p hp => o.mark_points p (hps ▸ List.mem_cons_of_mem _ hp)
  have hquote : ∀ p ∈ o.quotation.points, p.InMark :=
    fun p hp => o.mark_points p (List.mem_append_right _ hp)
  have hlt : CodePoint.char '<' ≠ .char '\n' := by decide
  rw [text, hps, heredocMark, List.append_assoc, List.cons_append]
  dsimp only
  rw [if_neg hlt, beforeName?_append hmark, beforeName?_name o.unbroken hquote]
  cases o.name.any (isNameStart ·.toChar) <;> rfl

/-- The first point of the name is a letter or underscore of ASCII. -/
def StartsPlain : Prop := ∃ p ∈ o.name.head?, isNameStart p.toChar

theorem heredocMark_text_eq_mark_iff : heredocMark o.text = o.mark ↔ o.StartsPlain := by
  obtain ⟨p, ps, hname⟩ := List.exists_cons_of_ne_nil o.name_ne_nil
  rw [StartsPlain, hname]
  cases hp : isNameStart p.toChar with
  | true => simp [heredocMark_text, hname, hp]
  | false =>
    have hmark : heredocMark o.text ≠ o.mark := by
      have hlonger : ∀ xs ys, (⟨o.mark.points ++ p :: xs ++ ys⟩ : Text) ≠ o.mark := by
        intro xs ys h
        simpa using congrArg (·.points.length) h
      rw [heredocMark_text, hname, List.takeWhile_cons_of_pos (by rw [hp]; rfl)]
      split
      · simpa using hlonger _ []
      · rw [text, hname]
        exact hlonger _ _
    simpa [hp] using hmark

end HeredocOpener

/-! ### The token of an opener -/

namespace Yield

variable {lines : LineTable} {options : Options} {state : State} {c : Cursor} {l : Lexeme} {y : Yield}

theorem exists_of_heredocBeg (hrole : Role.of options l.kind = .known .heredocBeg)
    (h : ofLexeme lines options state c l = .ok y) :
    ∃ span, y.tokens = [⟨.stringBeg, .text (heredocMark l.text), span⟩] := by
  rw [ofLexeme, hrole] at h
  obtain ⟨span, -, htokens⟩ := exists_of_bind (exists_tokens h)
  exact ⟨span, (Except.ok.inj htokens).symm⟩

/-- The token of an opener carries the punctuation before the name, and nothing else, if and only if
the name starts with a letter or underscore of ASCII. -/
theorem carries_mark_iff (o : HeredocOpener) (hrole : Role.of options l.kind = .known .heredocBeg)
    (htext : l.text = o.text) (h : ofLexeme lines options state c l = .ok y) :
    (∃ span, y.tokens = [⟨.stringBeg, .text o.mark, span⟩]) ↔ o.StartsPlain := by
  obtain ⟨span, htokens⟩ := exists_of_heredocBeg hrole h
  rw [htokens, htext, ← o.heredocMark_text_eq_mark_iff]
  simp

end Yield

namespace HeredocOpener

/-- The opener as the lexeme that its source begins with. -/
def lexeme (o : HeredocOpener) : Lexeme := ⟨1, 0, LexemeKind.heredocBeg.name, o.text, .ended⟩

/-- What the opener yields as the only lexeme of its source. -/
def yielded (o : HeredocOpener) : Except Failure Yield :=
  Yield.ofLexeme (.ofSource ⟨"opener.rb", o.text.toString⟩) {} .beg (.start [o.lexeme]) o.lexeme

def lettered : HeredocOpener where
  indentation := .indented
  quotation := .single
  name := [.char 'A', .char ' ', .char '1']
  name_ne_nil := by decide
  unbroken := by decide
  unclosed := by decide
  identifier := by decide

theorem carries_mark_iff_lettered :
    lettered.yielded = .ok ⟨[⟨.stringBeg, .text "<<-'", .sized 0 8⟩], .openHeredoc⟩ ∧
      ((∃ span, [(⟨.stringBeg, .text "<<-'", .sized 0 8⟩ : Token)] =
        [⟨.stringBeg, .text lettered.mark, span⟩]) ↔ lettered.StartsPlain) := by
  have hrole : Role.of {} lettered.lexeme.kind = .known .heredocBeg := by decide
  have h : lettered.yielded =
      .ok ⟨[⟨.stringBeg, .text "<<-'", .sized 0 8⟩], .openHeredoc⟩ := by decide
  exact ⟨h, Yield.carries_mark_iff lettered hrole rfl h⟩

/-- A quoted name can start with a digit. -/
def numbered : HeredocOpener where
  indentation := .flush
  quotation := .double
  name := [.char '1', .char 'A']
  name_ne_nil := by decide
  unbroken := by decide
  unclosed := by decide
  identifier := by decide

/-- An identifier can start with a letter beyond ASCII. -/
def accented : HeredocOpener where
  indentation := .dedented
  quotation := .bare
  name := [.char 'é']
  name_ne_nil := by decide
  unbroken := by decide
  unclosed := by decide
  identifier := by decide

/-- A digit is taken for punctuation, and so is a name without letters of ASCII. -/
theorem yielded_numbered_accented :
    numbered.mark = "<<\x22" ∧ numbered.yielded =
        .ok ⟨[⟨.stringBeg, .text "<<\x221", .sized 0 6⟩], .openHeredoc⟩ ∧
      accented.mark = "<<~" ∧ accented.yielded =
        .ok ⟨[⟨.stringBeg, .text "<<~é", .sized 0 5⟩], .openHeredoc⟩ := by
  decide

end HeredocOpener

end RubyTokens
