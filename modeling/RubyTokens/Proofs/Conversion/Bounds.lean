import RubyTokens.Proofs.Conversion.Failing
import RubyTokens.Proofs.Conversion.Rendering

/-! Ranges lie in the source. The line table gives out no other ones, whatever lines, columns and
texts the lexemes have, and a range over several lexemes covers ranges that the table gave out, in
whichever order these stand. So neither a token nor a rejection points to bytes that are not there.
-/

namespace RubyTokens

/-- The ends of the range are in order, and the source is long enough for it. -/
def Span.InSource (s : Source) (r : Span) : Prop := r.start ≤ r.stop ∧ r.stop ≤ s.byteLength

/-- All ranges of an outcome lie in the source: those of the tokens, or that of a rejected lexeme,
in the rejection and in the diagnostic that is made of it. The other failures have no range. -/
def Outcome.InSource (s : Source) : Outcome → Prop
  | .tokens ts => ∀ t ∈ ts, t.span.InSource s
  | .failed (.rejected r) => r.span.InSource s ∧ r.diagnostic.span.InSource s
  | .failed _ | .unfinished => True

theorem Span.inSource_iff {s : Source} {r : Span} :
    r.InSource s ↔ s.fullSpan.contains r = true := by
  have hstart : s.fullSpan.start = 0 := rfl
  have hstop : s.fullSpan.stop = s.byteLength := Nat.zero_add _
  have horder := r.start_le_stop
  rw [InSource, contains_iff, hstart, hstop]
  omega

theorem Span.InSource.cover {s : Source} {a b : Span} (ha : a.InSource s) (hb : b.InSource s) :
    (a.cover b).InSource s :=
  inSource_iff.2 (contains_cover.2 ⟨inSource_iff.1 ha, inSource_iff.1 hb⟩)

/-- The line table gives out ranges of its source only. -/
theorem LineTable.inSource_of_span {t : LineTable} {line column length : Int} {r : Span}
    (h : t.span line column length = .ok r) : r.InSource t.source := by
  obtain ⟨start, -, h⟩ := exists_of_bind h
  obtain ⟨n, -, h⟩ := exists_of_bind h
  dsimp only at h
  split_ifs at h with hcontains
  cases h
  exact Span.inSource_iff.2 hcontains

variable {lines : LineTable} {ls behind rest : List Lexeme} {l : Lexeme} {shift n : ℕ}
variable {ts : List Token} {r : Span}

namespace Yield

theorem inSource_of_spanAt (h : spanAt lines l shift n = .ok r) : r.InSource lines.source :=
  LineTable.inSource_of_span (ok_of_mapError h)

theorem inSource_of_spanOf (h : spanOf lines l = .ok r) : r.InSource lines.source := by
  obtain ⟨n, -, h⟩ := exists_of_bind h
  exact inSource_of_spanAt h

end Yield

/-! ### Tokens of one step -/

theorem Cut.inSource {x : String} (h : Cut lines ls l shift ts x) :
    ∀ t ∈ ts, t.span.InSource lines.source := by
  induction h with
  | nil => exact List.forall_mem_nil _
  | cons span _ _ ih => exact List.forall_mem_cons.2 ⟨Yield.inSource_of_spanAt span, ih⟩

/-- A token over several lexemes covers the ranges of the first and of the last one. -/
theorem Rendered.inSource {text : Text} (h : Rendered lines ls l behind ts text) :
    ∀ t ∈ ts, t.span.InSource lines.source := by
  cases h with
  | pieces hcut => exact hcut.inSource
  | whole first_eq last_eq span _ =>
    rw [List.forall_mem_singleton, span]
    exact (Yield.inSource_of_spanOf first_eq).cover (Yield.inSource_of_spanOf last_eq)

/-! ### Runs -/

theorem Progress.Reaches.inSource {s : Setting} {q : Progress} (h : Reaches s (.start ls) q) :
    ∀ t ∈ q.tokens, t.span.InSource s.lines.source := by
  intro t ht
  obtain ⟨made, hmade, hin⟩ := List.mem_flatMap.1 ht
  obtain ⟨i, l, rest, r, hread⟩ := h.exists_made (List.mem_reverse.1 hmade)
  have hrendered := rendered_of_reading (hread.drop ▸ List.drop_suffix i ls) hread.reading
  exact hrendered.inSource t (hread.tokens ▸ hin)

namespace Job

/-- All ranges that a conversion answers with lie in its source. -/
theorem inSource_outcome (j : Job) : j.outcome.InSource j.source := by
  cases ho : j.outcome with
  | tokens ts =>
    obtain ⟨-, rfl⟩ := outcome_eq_tokens_iff.1 ho
    exact (Progress.reaches_run _ _ _).inSource
  | unfinished => trivial
  | failed f =>
    obtain ⟨l, -, hconcerns⟩ := exists_concerns_of_failed ho
    cases f with
    | rejected r =>
      have hspan : r.span.InSource j.source := Yield.inSource_of_spanOf hconcerns.2
      exact ⟨hspan, r.span_diagnostic ▸ hspan⟩
    | _ => trivial

/-- A string whose end stands before its beginning, and a column that lies on the line before. -/
def backwards : Job where
  source := ⟨"back.rb", "ab\n\"c\""⟩
  lexemes := [
    ⟨2, 2, LexemeKind.tstringBeg.name, "\"", .beg⟩,
    ⟨2, -3, LexemeKind.tstringContent.name, "ab", .beg⟩,
    ⟨2, 0, LexemeKind.tstringEnd.name, "\"", .ended⟩,
    ⟨2, -3, LexemeKind.identifier.name, "ab", .ended⟩]

example : backwards.outcome = .tokens [⟨.string, .text "ab", .sized 3 3⟩,
    ⟨.identifier, .text "ab", .sized 0 2⟩] := by decide +kernel

end Job

end RubyTokens
