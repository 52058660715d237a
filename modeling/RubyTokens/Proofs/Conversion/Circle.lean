import RubyTokens.Proofs.Conversion.Walk

/-! Runs that go round and round. A heredoc's body begins behind the last end that was read, as long
as the line of that end's opener is not done. An opener that stands in such a body is sent to the
beginning of the body it stands in, so it is read again, and sent there again. -/

namespace RubyTokens

variable {s : Setting} {ls : List Lexeme} {p q : Progress} {w : Place} {i j : ℕ}

/-- The lexeme at an index is read and the cursor goes on behind what was read, at index `j`, while
a heredoc is open. -/
def Passes (s : Setting) (ls : List Lexeme) (i j : ℕ) : Prop :=
  ∃ r, reading s.lines s.options .beg (ls.drop i) = .ok r ∧
    (r.stride = .endLine ∨ r.stride = .past r.stride.count) ∧ j = i + 1 + r.stride.count

/-- The lexeme at an index opens a heredoc. -/
def Opens (s : Setting) (ls : List Lexeme) (i : ℕ) : Prop :=
  ∃ r, reading s.lines s.options .beg (ls.drop i) = .ok r ∧ r.stride = .openHeredoc

/-- A way from one index to another one that does not move the cursor. -/
def Leads (s : Setting) (ls : List Lexeme) : ℕ → ℕ → Prop := Relation.ReflTransGen (Passes s ls)

/-- The run goes straight to an opener that is sent to where the way began. -/
structure Circles (s : Setting) (ls : List Lexeme) (w : Place) (resume opener : ℕ) : Prop where
  order : s.order = .lexer
  inside : w.openers ≠ []
  pending : w.resume = some resume
  around : Leads s ls (resume + 1) opener
  onward : Leads s ls w.index opener
  opens : Opens s ls opener

/-- Where a line is to be taken up again and a heredoc is open, a step that is not noted passes its
lexeme, unless it goes behind the end of the lexemes. -/
theorem Passes.of_note?_eq_none {st : State} {r : Reading}
    (hr : reading s.lines s.options st (ls.drop w.index) = .ok r)
    (hn : w.note? ls r.stride = none) (hres : w.resume ≠ none) (hopen : w.openers ≠ [])
    (hin : (w.next ls r.stride).index < ls.length) :
    Passes s ls w.index (w.next ls r.stride).index := by
  have hf : r.stride ≠ .finish := by
    intro hf
    rw [hf] at hin
    exact absurd hin (Nat.lt_irrefl _)
  obtain ⟨ts, hbeg⟩ := exists_reading_of_state hr .beg
  refine ⟨_, hbeg, Place.passing_of_note?_eq_none hn hf hres hopen, ?_⟩
  rw [Place.next_of_note?_eq_none hn hf]
  rfl

/-- In any state, the stride is that of the state where expressions begin. -/
theorem Progress.exists_step_of_reading {r : Reading} (hp : p.IsAt ls w)
    (hr : reading s.lines s.options .beg (ls.drop w.index) = .ok r) :
    ∃ q, p.step s = .ok q ∧ q.IsAt ls (w.next ls (r.stride.inOrder s.order)) := by
  cases hw : ls.drop w.index with
  | nil => rw [hw] at hr; cases hr
  | cons l rest =>
    rw [hw] at hr
    obtain ⟨ts, hts⟩ := exists_reading_of_state hr p.state
    refine ⟨p.after s ls w l rest ⟨ts, r.stride⟩, ?_, Progress.after_isAt⟩
    rw [Progress.step_eq hp hw, hts]
    rfl

theorem Passes.exists_step (h : Passes s ls w.index j) (hp : p.IsAt ls w) (ho : s.order = .lexer)
    (hw : w.openers ≠ []) : ∃ q, p.step s = .ok q ∧ q.IsAt ls { w with index := j } := by
  obtain ⟨r, hr, hstride, rfl⟩ := h
  obtain ⟨q, hs, hq⟩ := Progress.exists_step_of_reading hp hr
  refine ⟨q, hs, ?_⟩
  have hnext : w.next ls r.stride = w.ahead r.stride.count := by
    rcases hstride with hstride | hstride
    · rw [hstride]
      obtain ⟨i, openers, resume⟩ := w
      cases openers with
      | nil => exact absurd rfl hw
      | cons o openers => cases resume <;> rfl
    · rw [hstride]
      rfl
  rw [ho, Stride.inOrder, hnext] at hq
  exact hq

namespace Circles

variable {r e : ℕ}

/-- A run that goes round and round makes a step, and still does so behind it. -/
theorem exists_step (h : Circles s ls w r e) (hp : p.IsAt ls w) :
    ∃ q v, p.step s = .ok q ∧ q.IsAt ls v ∧ Circles s ls v r e := by
  rcases Relation.ReflTransGen.cases_head h.onward with heq | ⟨k, hpass, hlead⟩
  -- At the opener the way begins again, with one more heredoc open.
  · obtain ⟨rd, hr, hstride⟩ := h.opens
    rw [← heq] at hr
    obtain ⟨q, hs, hq⟩ := Progress.exists_step_of_reading hp hr
    have hbody : w.body? ls = some (r + 1) := by rw [Place.body?, h.pending]
    rw [h.order, hstride, Stride.inOrder, Place.next_openHeredoc hbody] at hq
    exact ⟨q, _, hs, hq, h.order, List.cons_ne_nil _ _, h.pending, h.around, h.around, h.opens⟩
  · obtain ⟨q, hs, hq⟩ := hpass.exists_step hp h.order h.inside
    exact ⟨q, _, hs, hq, h.order, h.inside, h.pending, h.around, hlead, h.opens⟩

theorem run_unfinished (h : Circles s ls w r e) (hp : p.IsAt ls w) (fuel : ℕ) :
    (Progress.run s fuel p).2 = .unfinished := by
  induction fuel generalizing p w with
  | zero =>
    obtain ⟨q, v, hs, -, -⟩ := h.exists_step hp
    have he := Progress.isExhausted_of_step hs
    simp only [Progress.run, he, Bool.false_eq_true, ↓reduceIte]
  | succ fuel ih =>
    obtain ⟨q, v, hs, hq, hcircle⟩ := h.exists_step hp
    rw [Progress.run_succ_of_step (Progress.isExhausted_of_step hs) hs]
    exact ih hcircle hq

theorem not_ends (h : Circles s ls w r e) (hp : p.IsAt ls w) : ¬ Progress.Ends s p := by
  rintro ⟨fuel, hfuel⟩
  exact hfuel (h.run_unfinished hp fuel)

end Circles

end RubyTokens
