import RubyTokens.Proofs.Conversion.Skipped

/-! Lexemes of kinds that nothing is made of. A step at such a lexeme fails. So if a conversion
succeeds, a lexeme of such a kind was not looked at: the fold of a plain symbol or of an embedded
document took it whatever its kind, or it was skipped behind an opener. -/

namespace RubyTokens

/-- The lexeme's kind is not known, or no token is made of it where it stands by itself. -/
def Lexeme.IsUnmapped (options : Options) (l : Lexeme) : Prop :=
  Role.of options l.kind = .unknown ∨
    ∃ k ∈ [LexemeKind.character, .embdoc, .embdocEnd], Role.of options l.kind = .known k

instance (options : Options) (l : Lexeme) : Decidable (l.IsUnmapped options) :=
  inferInstanceAs (Decidable (_ ∨ _))

/-- How a lexeme comes through a conversion without a look at its kind. -/
inductive Job.Overlooks (j : Job) (k : ℕ) : Prop
  | symbol {made : Step} {i : ℕ} {colon : Lexeme} (mem : made ∈ j.run.1.history)
      (index : made.index = i) (last : made.last = k) (behind : k = i + 1)
      (colon_eq : j.lexemes[i]? = some colon) (isColon : colon.isColon = true)
  | embdoc {made : Step} {i : ℕ} {opener : Lexeme} (mem : made ∈ j.run.1.history)
      (index : made.index = i) (behind : i < k) (within : (k : Int) ≤ made.last)
      (opener_eq : j.lexemes[i]? = some opener) (kind : opener.hasKind .embdocBeg = true)
  | skipped {o : ℕ} (unread : j.run.1.timesRead k = 0)
      (opener : (o : Int) ∈ j.run.1.cursor.openers) (line : Behind j.lexemes o k)

variable {lines : LineTable} {options : Options} {state : State} {s : Setting} {l x : Lexeme}
variable {ls rest : List Lexeme} {made : Step} {r : Reading} {i k : ℕ}

namespace Lexeme.IsUnmapped

/-- A known kind that no token is made of is one of three. -/
theorem hasKind_eq_false (hx : x.IsUnmapped options) {k : LexemeKind}
    (hk : k ∉ [LexemeKind.character, .embdoc, .embdocEnd]) : x.hasKind k = false := by
  by_contra hkind
  have hkind := Bool.not_eq_false _ ▸ hkind
  rcases hx with hunknown | ⟨j, hj, hrole⟩
  · have hnone := Role.kind?_of_unknown hunknown
    rw [Lexeme.hasKind_iff.1 hkind] at hnone
    cases hnone
  · exact hk (hasKind_inj (Role.hasKind_of_known hrole) hkind ▸ hj)

theorem ofLexeme_ne_ok (hx : x.IsUnmapped options) (c : Cursor) (y : Yield) :
    Yield.ofLexeme lines options state c x ≠ .ok y := by
  intro h
  unfold Yield.ofLexeme at h
  rcases hx with hunknown | ⟨k, hk, hrole⟩
  · rw [hunknown] at h
    obtain ⟨_, -, hthrow⟩ := exists_of_bind h
    cases hthrow
  · rw [hrole] at h
    simp only [List.mem_cons, List.not_mem_nil, or_false] at hk
    rcases hk with rfl | rfl | rfl <;>
    · obtain ⟨_, -, hthrow⟩ := exists_of_bind h
      cases hthrow

/-- A step at the lexeme fails. -/
theorem reading_ne_ok (hx : x.IsUnmapped options) (rest : List Lexeme) :
    reading lines options state (x :: rest) ≠ .ok r := by
  intro h
  rw [reading] at h
  cases hy : Yield.ofLexeme lines options state (.start (x :: rest)) x with
  | error e => rw [hy] at h; cases h
  | ok y => exact hx.ofLexeme_ne_ok _ y hy

end Lexeme.IsUnmapped

/-- A step that reads a lexeme of such a kind reads it behind a colon, or behind the opener of an
embedded document. -/
theorem Progress.Made.cases_of_isUnmapped (h : Made s ls made i l rest r) (hk : ls[k]? = some x)
    (hx : x.IsUnmapped s.options) (hread : i ≤ k ∧ k ≤ i + r.stride.count) :
    (l.isColon = true ∧ r.stride.count = 1 ∧ k = i + 1) ∨
      (l.hasKind .embdocBeg = true ∧ i < k) := by
  have hne : k ≠ i := by
    intro hki
    obtain rfl := h.eq_of_index hk hki
    exact hx.reading_ne_ok rest h.reading
  obtain ⟨d, rfl⟩ : ∃ d, k = i + (d + 1) := ⟨k - i - 1, by omega⟩
  rw [← List.getElem?_drop, h.drop, List.getElem?_cons_succ] at hk
  have hfolds := Stride.folds s.options l rest
  rw [← stride_of_reading h.reading] at hfolds
  generalize r.stride.count = count at *
  -- All other folds ask for the kinds of what they read.
  have hother : ∀ {y : Lexeme} {j : LexemeKind}, y.hasKind j = true →
      j ∉ [LexemeKind.character, .embdoc, .embdocEnd] → x ≠ y := fun hy hj hxy => by
    rw [← hxy, hx.hasKind_eq_false hj] at hy
    cases hy
  cases hfolds with
  | nothing => omega
  | separator tail kind =>
    obtain rfl : d = 0 := by omega
    exact absurd (Option.some.inj hk).symm (hother kind (by decide))
  | emptyString tail ending =>
    obtain rfl : d = 0 := by omega
    exact absurd (Option.some.inj hk).symm (hother ending (by decide))
  | string tail content ending =>
    obtain rfl | rfl : d = 0 ∨ d = 1 := by omega
    · exact absurd (Option.some.inj hk).symm (hother content (by decide))
    · exact absurd (Option.some.inj hk).symm (hother ending (by decide))
  | symbol f tail opener colon =>
    refine .inl ⟨?_, rfl, by omega⟩
    rw [Lexeme.isColon, opener, decide_eq_true colon, Bool.and_self]
  | embdoc opener ending => exact .inr ⟨opener, by omega⟩

namespace Job

/-- If a conversion without a data section succeeds, it has overlooked each lexeme of a kind that
nothing is made of. -/
theorem overlooks_of_isUnmapped {j : Job} {ts : List Token}
    (hd : ∀ l ∈ j.lexemes, l.hasKind .dataEnd = false) (h : j.outcome = .tokens ts)
    (hk : j.lexemes[k]? = some x) (hx : x.IsUnmapped j.options) : j.Overlooks k := by
  have hend := (outcome_eq_tokens_iff.1 h).1
  rcases Nat.eq_zero_or_pos (j.run.1.timesRead k) with hun | hread
  · obtain ⟨o, ho, hline⟩ :=
      exists_opener_of_not_read hd hend (List.getElem?_eq_some_iff.1 hk).1 hun
    exact .skipped hun ho hline
  · obtain ⟨made, hmem, hin⟩ := List.countP_pos_iff.1 hread
    obtain ⟨i, l, rest, r, hmade⟩ := (Progress.reaches_run _ _ _).exists_made hmem
    have hin := of_decide_eq_true hin
    rw [hmade.index, hmade.last] at hin
    rcases hmade.cases_of_isUnmapped hk hx (by omega) with ⟨hcolon, hcount, rfl⟩ | ⟨hembdoc, hlt⟩
    · exact .symbol hmem hmade.index (hcount ▸ hmade.last) rfl hmade.getElem? hcolon
    · exact .embdoc hmem hmade.index hlt (by rw [hmade.last]; omega) hmade.getElem? hembdoc

/-- A symbol whose name is of a kind that is not known. -/
def mysterySymbol : Job where
  source := ⟨"symbol.rb", ":foo"⟩
  lexemes := [⟨1, 0, LexemeKind.symbeg.name, ":", .fname⟩, ⟨1, 1, "on_mystery", "foo", .ended⟩]

theorem overlooks_of_isUnmapped_mysterySymbol :
    mysterySymbol.outcome = .tokens [⟨.symbol, .text "foo", .sized 0 4⟩] ∧
      mysterySymbol.Overlooks 1 := by
  have h : mysterySymbol.outcome = .tokens [⟨.symbol, .text "foo", .sized 0 4⟩] := by
    decide +kernel
  exact ⟨h, overlooks_of_isUnmapped (by decide) h rfl (by decide)⟩

/-- The conversion succeeds, and makes a symbol of the lexeme. -/
theorem outcome_mysterySymbol : (∀ l ∈ mysterySymbol.lexemes, l.hasKind .dataEnd = false) ∧
    (∃ x ∈ mysterySymbol.lexemes, Role.of mysterySymbol.options x.kind = .unknown) ∧
    mysterySymbol.outcome = .tokens [⟨.symbol, .text "foo", .sized 0 4⟩] :=
  ⟨by decide, by decide, by decide +kernel⟩

end Job

end RubyTokens
