import RubyTokens.Proofs.Conversion.Coverage
import RubyTokens.Proofs.Heredoc.Order

/-! Bytes of lines with heredocs. The cursor jumps to each body and back, but one step reads each
lexeme, so the ranges of all tokens meet nowhere, and together they leave out what the steps leave
out. -/

namespace RubyTokens

/-- Lines whose parts are read each for itself, and what stands behind the last of them. -/
def ApartList (options : Options) (xs : List Lexeme) : Prop :=
  ∃ groups last, (∀ g ∈ groups, LineGroup.Apart options g) ∧ Unmarked last ∧
    xs = lexerOrder groups last

variable {options : Options} {l x : Lexeme} {g : LineGroup} {k n o p : ℕ}

theorem LineGroup.Apart.hasKind_dataEnd (hg : g.Apart options) (hl : l ∈ g.lexerOrder) :
    l.hasKind .dataEnd = false := by
  have hpart : ∀ {xs : List Lexeme}, Part options xs → l ∈ xs → l.hasKind .dataEnd = false :=
    fun hxs hl => hxs.unmarked l hl _ (by decide)
  have hfence : ∀ {f : Lexeme}, f.isFence = true → f.hasKind .dataEnd = false :=
    fun hf => Lexeme.not_hasKind_of_isFence hf (by decide)
  rw [lexerOrder, List.append_assoc] at hl
  rcases List.mem_append.1 hl with hl | hl
  · exact hpart hg.lead hl
  rcases List.mem_append.1 hl with hl | hl
  · obtain ⟨h, hh, hl⟩ := List.mem_flatMap.1 hl
    rcases List.mem_cons.1 hl with rfl | hl
    · exact hfence (hg.heredocs h hh).isFence_opener
    · exact hpart (hg.heredocs h hh).tail hl
  rcases List.mem_cons.1 hl with rfl | hl
  · exact hfence (Lexeme.isFence_of_endsLine hg.lineEnd)
  obtain ⟨h, hh, hl⟩ := List.mem_flatMap.1 hl
  rcases List.mem_append.1 hl with hl | hl
  · exact hpart (hg.heredocs h hh).body hl
  · rw [List.mem_singleton.1 hl]
    exact hfence (Lexeme.isFence_of_heredocEnd (hg.heredocs h hh).terminator)

theorem ApartList.hasKind_dataEnd {xs : List Lexeme} (h : ApartList options xs) :
    ∀ l ∈ xs, l.hasKind .dataEnd = false := by
  obtain ⟨groups, last, hgroups, hlast, rfl⟩ := h
  intro l hl
  rcases List.mem_append.1 hl with hl | hl
  · obtain ⟨g, hg, hl⟩ := List.mem_flatMap.1 hl
    exact (hgroups g hg).hasKind_dataEnd hl
  · exact hlast l hl _ (by decide)

namespace Job

/-- One step reads each lexeme. -/
theorem timesRead_of_apartList {j : Job} (order : j.order = .lexer) (ho : j.options.KeepsKinds)
    (hx : ApartList j.options j.lexemes) (hend : j.run.2 = .finished) (hk : k < j.lexemes.length) :
    j.run.1.timesRead k = 1 := by
  obtain ⟨groups, last, hgroups, hlast, heq⟩ := hx
  have hcross : Crosses j.setting j.lexemes
      (linesPassage j.setting.lines j.setting.options groups last) 0
      (lexerOrder groups last).length :=
    crosses_lines (fun g hg _ _ => g.crosses_lexerOrder order ho (hgroups g hg)) hlast heq
  rw [← heq] at hcross
  exact timesRead_of_crosses hcross hend hk

/-- Each byte of the lexemes lies in the range of one token at most, and it lies in none if, and
only if, it is one that a step leaves out. -/
theorem countP_covers_of_apartList {j : Job} {ts : List Token} (order : j.order = .lexer)
    (ho : j.options.KeepsKinds) (hx : ApartList j.options j.lexemes)
    (ht : Tiles j.setting.lines o j.lexemes) (h : j.outcome = .tokens ts)
    (hk : j.lexemes[k]? = some x) (hp : j.setting.lines.offset x.line x.column = .ok p)
    (hn : n < x.size) :
    ts.countP (·.covers (p + n)) ≤ 1 ∧ (ts.countP (·.covers (p + n)) = 0 ↔
      ∃ made ∈ j.run.1.history, made.LeavesOut j.lexemes k x n) := by
  obtain ⟨hend, rfl⟩ := outcome_eq_tokens_iff.1 h
  have honce := timesRead_of_apartList order ho hx hend (List.getElem?_eq_some_iff.1 hk).1
  have hoffset : p + n = o + (extent (j.lexemes.take k) + n) := by
    have htiles := ht.drop k
    rw [← List.head?_drop] at hk
    obtain ⟨rest, hrest⟩ := List.head?_eq_some_iff.1 hk
    rw [hrest] at htiles
    have hat := (tiles_cons_iff.1 htiles).1
    rw [Except.ok.inj (hp.symm.trans hat), Nat.add_assoc]
  rw [hoffset]
  exact (Progress.reaches_run _ _ _).countP_covers ho hx.hasKind_dataEnd ht hk hn honce

/-- The line end behind the mark at the end of the first heredoc lies in no range. -/
theorem countP_covers_of_apartList_heredocLine :
    let j := reported heredocSource {} [heredocLine] []
    j.outcome = .tokens j.run.1.tokens ∧ j.run.1.tokens.countP (·.covers (13 + 1)) ≤ 1 ∧
      (j.run.1.tokens.countP (·.covers (13 + 1)) = 0 ↔ ∃ made ∈ j.run.1.history,
        made.LeavesOut j.lexemes 8 ⟨3, 0, LexemeKind.heredocEnd.name, "A\n", .beg⟩ 1) := by
  intro j
  have hx : ApartList j.options j.lexemes :=
    ⟨[heredocLine], [], fun g hg => List.mem_singleton.1 hg ▸ flat_heredocLine.apart _,
      List.forall_mem_nil _, rfl⟩
  have h : j.outcome = .tokens j.run.1.tokens :=
    outcome_eq_tokens_iff.2 ⟨by decide +kernel, rfl⟩
  exact ⟨h, countP_covers_of_apartList (o := 0) rfl (fun _ h => LexemeKind.name_inj h) hx
    (by decide +kernel) h rfl (by decide +kernel) (by decide)⟩

end Job

end RubyTokens
