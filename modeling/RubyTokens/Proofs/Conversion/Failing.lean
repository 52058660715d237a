import RubyTokens.Proofs.Conversion.Walk
import RubyTokens.Proofs.Literal.Refusal

/-! Why a step fails. The failure of a step concerns the lexeme at hand: a rejection names that
lexeme and has its range, and an embedded document without an end is reported where it begins. No
step fails for the cursor's sake, since all that a lexeme looks at is there, or is known not to be
there. A run that fails does so by the failure of one step. -/

namespace RubyTokens

/-- What a failure of a step says about the step's lexeme. -/
def Failure.Concerns (lines : LineTable) (l : Lexeme) : Failure → Prop
  | .rejected r => r.lexeme = l ∧ Yield.spanOf lines l = .ok r.span
  | .openEmbdoc line column => line = l.line ∧ column = l.column
  | .emptyRegexpEnd => l.text.points = []
  | .position _ | .halves _ | .literal _ => True
  | .cursor _ => False

/-- How a lexeme comes to fail, as far as its role and its text decide that. -/
inductive Failure.ArisesAt (lines : LineTable) (options : Options) (l : Lexeme) : Failure → Prop
  | rejected {r : Rejection} (lexeme : r.lexeme = l) (span : Yield.spanOf lines l = .ok r.span) :
      ArisesAt lines options l (.rejected r)
  | position (e : LineError) : ArisesAt lines options l (.position e)
  | halves (h : Text.Halves) : ArisesAt lines options l (.halves h)
  | textual {e : LiteralError} (h : e.isTextual = true) : ArisesAt lines options l (.literal e)
  | imaginary {e : LiteralError} (role : Role.of options l.kind = .known .imaginary)
      (value : ImaginaryLiteral.parse l.text = .error e) : ArisesAt lines options l (.literal e)
  | emptyRegexpEnd (role : Role.of options l.kind = .known .regexpEnd)
      (text : l.text.points = []) : ArisesAt lines options l .emptyRegexpEnd
  | openEmbdoc : ArisesAt lines options l (.openEmbdoc l.line l.column)

theorem Failure.ArisesAt.concerns {lines : LineTable} {options : Options} {l : Lexeme} {f : Failure}
    (h : f.ArisesAt lines options l) : f.Concerns lines l := by
  cases h with
  | rejected lexeme span => exact ⟨lexeme, span⟩
  | emptyRegexpEnd role text => exact text
  | openEmbdoc => exact ⟨rfl, rfl⟩
  | _ => trivial

/-- All failures of a computation arise at the lexeme. -/
def Blames {α : Type} (lines : LineTable) (options : Options) (l : Lexeme)
    (x : Except Failure α) : Prop :=
  Fails (Failure.ArisesAt lines options l) x

section

variable {α : Type} {lines : LineTable} {options : Options} {l : Lexeme}

theorem blames_halves (x : Except Text.Halves α) : Blames lines options l (x.mapError .halves) :=
  (fails_true x).mapError fun h _ => .halves h

theorem blames_literal {x : Except LiteralError α} (h : FailsTextually x) :
    Blames lines options l (x.mapError .literal) :=
  Fails.mapError h fun _ => .textual

end

namespace Yield

variable {lines : LineTable} {options : Options} {state : State} {c : Cursor} {i : ℕ}
variable {l : Lexeme} {rest : List Lexeme} {kind : TokenKind} {payload : Payload}

/-! ### Lexemes on their own -/

/-- A range fails by its position only, whichever lexeme it is of. -/
theorem blames_spanAt (x : Lexeme) (shift length : ℕ) :
    Blames lines options l (spanAt lines x shift length) :=
  (fails_true _).mapError fun e _ => .position e

theorem blames_spanOf (x : Lexeme) : Blames lines options l (spanOf lines x) :=
  (blames_halves _).bind fun n _ => blames_spanAt x 0 n

theorem blames_single : Blames lines options l (single lines l kind payload) :=
  (blames_spanOf l).bind fun _ _ => fails_ok _

theorem blames_valued {α : Type} {f : α → Payload} {value : Except LiteralError α}
    (h : Blames lines options l (value.mapError .literal)) :
    Blames lines options l (valued lines l kind f value) :=
  h.bind fun _ _ => blames_single

/-- A rejection has the range of its lexeme. -/
theorem blames_reject {α : Type} {reject : Span → Rejection}
    (h : ∀ span, (reject span).lexeme = l ∧ (reject span).span = span) :
    Blames lines options l (do throw (.rejected (reject (← spanOf lines l))) : Except Failure α) := by
  refine (blames_spanOf l).bind fun span hspan => fails_error (.rejected (h span).1 ?_)
  rw [(h span).2]
  exact hspan

theorem blames_keyword : Blames lines options l (keyword lines state l) := by
  unfold keyword
  split
  · exact blames_single
  · exact blames_reject fun _ => ⟨rfl, rfl⟩

theorem blames_operator (following : Option Text) :
    Blames lines options l (operator lines state following l) := by
  unfold operator
  split
  · exact blames_single
  · exact blames_reject fun _ => ⟨rfl, rfl⟩

theorem blames_integer (split : Bool) : Blames lines options l (integer lines split l) := by
  unfold integer
  split_ifs
  · refine (blames_spanAt l 0 1).bind fun _ _ => ?_
    refine (blames_literal (IntegerLiteral.failsTextually_parse _)).bind fun _ _ => ?_
    refine (blames_halves _).bind fun n _ => ?_
    exact (blames_spanAt l 1 (n - 1)).bind fun _ _ => fails_ok _
  · exact blames_valued (blames_literal (IntegerLiteral.failsTextually_parse _))

theorem blames_backReference : Blames lines options l (backReference lines l) := by
  refine (blames_literal (failsTextually_groupNumber? _)).bind fun number _ => ?_
  cases number with
  | none => exact blames_single
  | some n => exact blames_single

theorem blames_regexpEnd (hrole : Role.of options l.kind = .known .regexpEnd) :
    Blames lines options l (regexpEnd lines l) := by
  unfold regexpEnd
  split
  next hpoints => exact fails_error (.emptyRegexpEnd hrole hpoints)
  next =>
    refine (blames_halves _).bind fun _ _ => ?_
    refine (blames_spanAt l _ _).bind fun _ _ => ?_
    refine (blames_halves _).bind fun _ _ => ?_
    exact (blames_spanAt l _ _).bind fun _ _ => fails_ok _

theorem blames_chomped : Blames lines options l (chomped lines l kind) :=
  (blames_halves _).bind fun _ _ => (blames_spanAt l _ _).bind fun _ _ => fails_ok _

/-! ### Lexemes with others behind them -/

theorem blames_covering {start : Span} {closer : Lexeme} {text : Text} :
    Blames lines options l (covering lines start closer kind text) :=
  (blames_spanOf closer).bind fun _ _ => fails_ok _

theorem blames_string (hc : c.At i (l :: rest)) : Blames lines options l (string lines c l) := by
  have h1 : c.peek 1 = .ok rest[0]? := hc.peek 1
  have h2 : c.peek 2 = .ok rest[1]? := hc.peek 2
  unfold string
  rw [h1, h2]
  refine (blames_spanOf l).bind fun _ _ => ?_
  refine (fails_ok rest[0]?).bind fun _ _ => (fails_ok rest[1]?).bind fun _ _ => ?_
  split
  · exact blames_covering.bind fun _ _ => fails_ok _
  · exact fails_ok _

theorem blames_symbol (hc : c.At i (l :: rest)) : Blames lines options l (symbol lines c l) := by
  have h1 : c.peek 1 = .ok rest[0]? := hc.peek 1
  unfold symbol
  rw [h1]
  refine (blames_spanOf l).bind fun _ _ => (fails_ok rest[0]?).bind fun _ _ => ?_
  split
  · exact blames_covering.bind fun _ _ => fails_ok _
  · exact fails_ok _

theorem blames_embdoc (hc : c.At i (l :: rest)) : Blames lines options l (embdoc lines c l) := by
  have hf := hc.findForward LexemeKind.embdocEnd.name
  unfold embdoc
  rw [hf]
  refine (fails_ok _).bind fun ending _ => ?_
  cases ending with
  | none => exact fails_error .openEmbdoc
  | some index =>
    refine (blames_spanOf l).bind fun _ _ => ?_
    exact blames_covering.bind fun _ _ => fails_ok _

theorem blames_wordList (hc : c.At i (l :: rest)) :
    Blames lines options l (wordList lines c l kind) := by
  have h1 : c.peekKind 1 = .ok (rest[0]?.map Lexeme.kind) := hc.peekKind 1
  unfold wordList
  rw [h1]
  refine (fails_ok (rest[0]?.map Lexeme.kind)).bind fun _ _ => ?_
  exact blames_single.bind fun _ _ => fails_ok _

/-! ### All lexemes -/

theorem blames_yield {ts : Except Failure (List Token)} {move : Move}
    (h : Blames lines options l ts) :
    Blames lines options l (do return (⟨← ts, move⟩ : Yield) : Except Failure Yield) :=
  h.bind fun _ _ => fails_ok _

theorem blames_ofKind (hc : c.At i (l :: rest)) {k : LexemeKind}
    (hrole : Role.of options l.kind = .known k) :
    Blames lines options l (ofKind lines options state c l k) := by
  cases k with
  | keyword => exact blames_yield blames_keyword
  | operator =>
    have h1 : c.peekKind 1 = .ok (rest[0]?.map Lexeme.kind) := hc.peekKind 1
    unfold ofKind
    rw [h1]
    exact (fails_ok (rest[0]?.map Lexeme.kind)).bind fun _ _ => blames_yield (blames_operator _)
  | integer => exact blames_yield (blames_integer _)
  | float =>
    exact blames_yield (blames_valued (blames_literal (FloatLiteral.failsTextually_parse _)))
  | rational =>
    exact blames_yield (blames_valued (blames_literal (RationalLiteral.failsTextually_parse _)))
  | imaginary =>
    refine blames_yield (blames_valued (Fails.mapError (fun e he => he) fun e he => ?_))
    exact .imaginary hrole he
  | backref => exact blames_yield blames_backReference
  | comment => exact blames_yield blames_chomped
  | heredocEnd => exact blames_yield blames_chomped
  | regexpEnd => exact blames_yield (blames_regexpEnd hrole)
  | tstringBeg => exact blames_string hc
  | symbeg => exact blames_symbol hc
  | embdocBeg => exact blames_embdoc hc
  | dataEnd => exact fails_ok _
  | _ =>
    first
      | exact blames_yield blames_single
      | exact blames_reject fun _ => ⟨rfl, rfl⟩

/-- What a lexeme fails by concerns that lexeme. -/
theorem blames_ofLexeme (hc : c.At i (l :: rest)) :
    Blames lines options l (ofLexeme lines options state c l) := by
  unfold ofLexeme
  cases hrole : Role.of options l.kind with
  | dropped => exact fails_ok _
  | direct kind => exact blames_yield blames_single
  | wordList kind => exact blames_wordList hc
  | character => exact blames_yield blames_single
  | known k => exact blames_ofKind hc hrole
  | unknown => exact blames_reject fun _ => ⟨rfl, rfl⟩

end Yield

theorem arisesAt_of_reading {lines : LineTable} {options : Options} {state : State} {l : Lexeme}
    {rest : List Lexeme} {f : Failure} (h : reading lines options state (l :: rest) = .error f) :
    f.ArisesAt lines options l := by
  rw [reading] at h
  cases hy : Yield.ofLexeme lines options state (.start (l :: rest)) l with
  | ok y => rw [hy] at h; cases h
  | error e =>
    rw [hy] at h
    cases h
    exact Yield.blames_ofLexeme (Cursor.start_at _) _ hy

/-! ### Runs -/

namespace Progress

variable {s : Setting} {p : Progress} {ls : List Lexeme} {w : Place} {fuel : ℕ} {f : Failure}

/-- A step that fails where lexemes are left fails at the lexeme there. -/
theorem exists_concerns_of_step (hp : p.IsAt ls w) (he : p.cursor.isExhausted = false)
    (h : p.step s = .error f) : ∃ l rest, ls.drop w.index = l :: rest ∧ f.Concerns s.lines l := by
  obtain ⟨l, rest, hdrop, hr⟩ := exists_of_step_error hp he h
  exact ⟨l, rest, hdrop, (arisesAt_of_reading hr).concerns⟩

/-- A run that fails has come to the step that fails. -/
theorem step_of_run_failed (h : (run s fuel p).2 = .failed f) :
    (run s fuel p).1.cursor.isExhausted = false ∧ (run s fuel p).1.step s = .error f := by
  induction fuel generalizing p with
  | zero =>
    rw [run] at h
    split_ifs at h
  | succ fuel ih =>
    by_cases he : p.cursor.isExhausted = true
    · rw [run_of_isExhausted he] at h
      cases h
    · have he : p.cursor.isExhausted = false := by simpa using he
      cases hs : p.step s with
      | error failure =>
        rw [run_succ_of_failure he hs] at h ⊢
        cases h
        exact ⟨he, hs⟩
      | ok next =>
        rw [run_succ_of_step he hs] at h ⊢
        exact ih h

end Progress

namespace Job

/-- A conversion that fails does so at one of its lexemes. -/
theorem exists_concerns_of_failed {j : Job} {f : Failure} (h : j.outcome = .failed f) :
    ∃ l ∈ j.lexemes, f.Concerns j.setting.lines l := by
  obtain ⟨he, hs⟩ := Progress.step_of_run_failed (outcome_eq_failed_iff.1 h)
  obtain ⟨w, hw⟩ := (Progress.reaches_run _ _ _).exists_isAt (Progress.start_isAt j.lexemes)
  obtain ⟨l, rest, hdrop, hconcerns⟩ := Progress.exists_concerns_of_step hw he hs
  exact ⟨l, List.mem_of_mem_drop (hdrop ▸ List.mem_cons_self), hconcerns⟩

end Job

end RubyTokens
