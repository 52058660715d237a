import RubyTokens.Proofs.Conversion.Circle
import RubyTokens.Proofs.Heredoc.Fence

/-! Lexemes that no step reads. A lexeme that has not been read lies ahead of the cursor, or on the
line of an opener whose heredoc is open; the end of the heredoc takes the cursor back there. If the
lexemes end within the body, nothing takes it back, and the rest of the opener's line is skipped.
Nothing else is. -/

namespace RubyTokens

variable {s : Setting} {ls rest : List Lexeme} {l : Lexeme} {w : Place} {p q : Progress}
variable {i k o b r : ℕ} {os : List ℕ} {resume : Option ℕ} {stride : Stride}

/-- No lexeme from one index up to, and without, another one ends a line. -/
def OneLine (ls : List Lexeme) (i k : ℕ) : Prop :=
  ∀ m l, i ≤ m → m < k → ls[m]? = some l → l.endsLine = false

/-- A lexeme stands behind an opener, on the opener's line. -/
def Behind (ls : List Lexeme) (o k : ℕ) : Prop := o < k ∧ OneLine ls (o + 1) k

/-- A lexeme that the run will come to: it lies ahead of the cursor, and is not taken for one of the
bodies that were read before, or it stands behind an opener whose heredoc is open. -/
inductive Pending (ls : List Lexeme) (w : Place) (k : ℕ) : Prop
  | ahead (index : w.index ≤ k) (openers : ∀ o ∈ w.openers, o < k)
      (fresh : (∀ r ∈ w.resume, r < k) ∨ OneLine ls w.index k)
  | behind {o : ℕ} (opener : o ∈ w.openers) (line : Behind ls o k)

/-- What the cursor has in its records. Either it is behind all openers, or it is in a body behind
another one of the same line, where no further heredoc can be opened. -/
inductive Stage (s : Setting) (ls : List Lexeme) (w : Place) : Prop
  | level (decreasing : (w.index :: w.openers).Pairwise (· > ·))
  | second {r : ℕ} (order : s.order = .lexer) (inside : w.openers ≠ [])
      (resume : w.resume = some r) (decreasing : w.openers.Pairwise (· > ·))
      (way : w.index < ls.length → Leads s ls (r + 1) w.index)

theorem OneLine.mono {m n : ℕ} (h : OneLine ls i k) (hm : i ≤ m) (hn : n ≤ k) : OneLine ls m n :=
  fun j l hj hk hl => h j l (Nat.le_trans hm hj) (Nat.lt_of_lt_of_le hk hn) hl

theorem oneLine_of_findIdx? (h : (ls.drop i).findIdx? Lexeme.endsLine = some b) :
    OneLine ls i (i + b) := by
  intro m l him hm hl
  obtain ⟨_, _, hbefore⟩ := List.findIdx?_eq_some_iff_getElem.1 h
  obtain ⟨d, rfl⟩ := Nat.exists_eq_add_of_le him
  rw [← List.getElem?_drop] at hl
  obtain ⟨hd, rfl⟩ := List.getElem?_eq_some_iff.1 hl
  exact Bool.not_eq_true _ ▸ hbefore d (by omega)

/-! ### Lexemes that will be read -/

namespace Pending

/-- Steps that go on read what they pass. -/
theorem past (h : Pending ls w k) {count : ℕ} (hk : ¬ (w.index ≤ k ∧ k ≤ w.index + count)) :
    Pending ls (w.ahead count) k := by
  cases h with
  | ahead index openers fresh =>
    have hindex : (w.ahead count).index ≤ k := by simp only [Place.ahead]; omega
    refine .ahead hindex openers (fresh.imp_right fun h => h.mono ?_ (Nat.le_refl _))
    simp only [Place.ahead]
    omega
  | behind opener line => exact .behind opener line

/-- An opener takes the cursor to its body; the rest of its line is left for later. -/
theorem opened (h : Pending ls w k) (hk : k ≠ w.index) (hb : w.body? ls = some b) :
    Pending ls ⟨b, w.index :: w.openers, w.resume⟩ k := by
  cases h with
  | behind opener line => exact .behind (List.mem_cons_of_mem _ opener) line
  | ahead index openers fresh =>
    have hlt : w.index < k := Nat.lt_of_le_of_ne index hk.symm
    have hopeners : ∀ o ∈ w.index :: w.openers, o < k := List.forall_mem_cons.2 ⟨hlt, openers⟩
    have hline : ∀ {m : ℕ}, k ≤ m → OneLine ls (w.index + 1) m →
        Pending ls ⟨b, w.index :: w.openers, w.resume⟩ k := fun hm hone =>
      .behind List.mem_cons_self ⟨hlt, hone.mono (Nat.le_refl _) hm⟩
    unfold Place.body? at hb
    cases hr : w.resume with
    | none =>
      rw [hr] at hb hline
      obtain ⟨d, hd, rfl⟩ := Option.map_eq_some_iff.1 hb
      by_cases hkd : k ≤ w.index + 1 + d
      · exact hline hkd (oneLine_of_findIdx? hd)
      · exact .ahead (by dsimp only; omega) hopeners (.inl nofun)
    | some r =>
      rw [hr] at hb hline
      cases hb
      rw [hr] at fresh
      rcases fresh with hfresh | hone
      · exact .ahead (hfresh r rfl) hopeners (.inl fun r' hr' => by cases hr'; exact hfresh r rfl)
      · exact hline (Nat.le_refl _) (hone.mono (Nat.le_succ _) (Nat.le_refl _))

/-- The end of a heredoc takes the cursor back behind the opener. -/
theorem closed (h : Pending ls ⟨i, o :: os, resume⟩ k) (hk : k ≠ i)
    (hos : ∀ o' ∈ os, o' < o) : Pending ls ⟨o + 1, os, some i⟩ k := by
  cases h with
  | ahead index openers fresh =>
    obtain ⟨ho, hos⟩ := List.forall_mem_cons.1 openers
    refine .ahead ho hos (.inl fun r hr => ?_)
    cases hr
    exact Nat.lt_of_le_of_ne index hk.symm
  | behind opener line =>
    rcases List.mem_cons.1 opener with rfl | hmem
    · exact .ahead line.1 (fun o' ho' => Nat.lt_trans (hos o' ho') line.1) (.inr line.2)
    · exact .behind hmem line

/-- The end of the line takes the cursor behind the bodies, which have been read. -/
theorem resumed (h : Pending ls ⟨i, [], some r⟩ k) (hk : k ≠ i) (hl : ls[i]? = some l)
    (hend : l.endsLine = true) : Pending ls ⟨r + 1, [], none⟩ k := by
  cases h with
  | behind opener line => exact absurd opener List.not_mem_nil
  | ahead index openers fresh =>
    rcases fresh with hfresh | hone
    · exact .ahead (hfresh r rfl) (List.forall_mem_nil _) (.inl nofun)
    · rw [hone i l (Nat.le_refl _) (Nat.lt_of_le_of_ne index hk.symm) hl] at hend
      cases hend

end Pending

/-! ### Records -/

namespace Stage

variable {rd : Reading}

theorem decreasing_openers (h : Stage s ls w) : w.openers.Pairwise (· > ·) := by
  cases h with
  | level decreasing => exact decreasing.of_cons
  | second order inside resume decreasing way => exact decreasing

/-- A step that is not noted goes on, and keeps the records. -/
theorem past (h : Stage s ls w) (hr : reading s.lines s.options p.state (ls.drop w.index) = .ok rd)
    (hn : w.note? ls (rd.stride.inOrder s.order) = none) (hf : rd.stride ≠ .finish) :
    Stage s ls (w.ahead rd.stride.count) := by
  cases h with
  | level decreasing =>
    obtain ⟨hi, hos⟩ := List.pairwise_cons.1 decreasing
    refine .level (List.pairwise_cons.2 ⟨fun o ho => ?_, hos⟩)
    have := hi o ho
    simp only [Place.ahead]
    omega
  | second order inside resume decreasing way =>
    rw [order, Stride.inOrder] at hn
    have hnext := Place.next_of_note?_eq_none hn hf
    refine .second order inside resume decreasing fun hin => ?_
    have hpass := Passes.of_note?_eq_none hr hn (by simp [resume]) inside (hnext ▸ hin)
    rw [hnext] at hpass
    refine (way ?_).tail hpass
    simp only [Place.ahead] at hin
    omega

/-- A step that is noted leads from a stage to a stage, if the run ends: in a second body a further
heredoc would be opened for ever. -/
theorem of_note? (h : Stage s ls w) (hp : p.IsAt ls w) (hends : Progress.Ends s p)
    (hr : reading s.lines s.options p.state (ls.drop w.index) = .ok rd) (order : s.order = .lexer)
    {note : Cursor.Note} (hn : w.note? ls rd.stride = some note) :
    Stage s ls (w.next ls rd.stride) := by
  have hlt : w.index < ls.length := by
    by_contra hle
    rw [List.drop_eq_nil_of_le (Nat.le_of_not_lt hle)] at hr
    cases hr
  have hos := h.decreasing_openers
  rcases Place.cases_of_note? hn with ⟨b, hstride, hb, -, hnext⟩ | ⟨o, os, -, ho, -, hnext⟩ |
    ⟨r, -, -, ho, -, hnext⟩
  · rw [hnext]
    obtain ⟨ts, hbeg⟩ := exists_reading_of_state hr .beg
    cases h with
    | second order' inside resume decreasing way =>
      have hcircle : Circles s ls w _ w.index :=
        ⟨order, inside, resume, way hlt, .refl, _, hbeg, hstride⟩
      exact absurd hends (hcircle.not_ends hp)
    | level decreasing =>
      cases hres : w.resume with
      | none =>
        refine .level (List.pairwise_cons.2 ⟨fun o ho => ?_, decreasing⟩)
        have hbody : w.index < b := Nat.lt_of_succ_lt (Place.body?_of_resume_none hres hb).1
        rcases List.mem_cons.1 ho with rfl | ho
        · exact hbody
        · exact Nat.lt_trans ((List.pairwise_cons.1 decreasing).1 o ho) hbody
      | some r =>
        rw [Place.body?, hres] at hb
        cases hb
        exact .second order (List.cons_ne_nil _ _) rfl decreasing fun _ => .refl
  · rw [hnext]
    rw [ho] at hos
    obtain ⟨hbefore, hos⟩ := List.pairwise_cons.1 hos
    exact .level (List.pairwise_cons.2 ⟨fun o' ho' => Nat.lt_succ_of_lt (hbefore o' ho'), hos⟩)
  · rw [hnext]
    exact .level (List.pairwise_singleton _ _)

end Stage

/-! ### Runs -/

/-- A run at a place, with all that it has not read still to come. -/
structure OnCourse (s : Setting) (ls : List Lexeme) (w : Place) (p : Progress) : Prop where
  isAt : p.IsAt ls w
  stage : Stage s ls w
  pending : ∀ k < ls.length, p.timesRead k = 0 → Pending ls w k

theorem OnCourse.start (s : Setting) (ls : List Lexeme) :
    OnCourse s ls ⟨0, [], none⟩ (.start ls) where
  isAt := Progress.start_isAt ls
  stage := .level (List.pairwise_singleton _ _)
  pending k _ _ := .ahead (Nat.zero_le k) (List.forall_mem_nil _) (.inl nofun)

/-- A step at which the cursor is moved keeps what is still to come. -/
theorem Pending.of_note? (h : Pending ls w k) (hos : w.openers.Pairwise (· > ·)) (hk : k ≠ w.index)
    (hl : ls[w.index]? = some l) (hfits : stride.Fits l) {note : Cursor.Note}
    (hn : w.note? ls stride = some note) : Pending ls (w.next ls stride) k := by
  obtain ⟨i, openers, resume⟩ := w
  rcases Place.cases_of_note? hn with ⟨b, -, hb, -, hnext⟩ | ⟨o, os, -, ho, -, hnext⟩ |
    ⟨r, rfl, hr, ho, -, hnext⟩ <;> rw [hnext]
  · exact h.opened hk hb
  · dsimp only at ho
    subst ho
    exact h.closed hk (List.pairwise_cons.1 hos).1
  · dsimp only at hr ho
    subst hr ho
    exact h.resumed hk hl hfits

/-- A step keeps the run on its course, if it is not the one at the data section. -/
theorem OnCourse.step (h : OnCourse s ls w p) (hd : ∀ l ∈ ls, l.hasKind .dataEnd = false)
    (hends : Progress.Ends s p) (hs : p.step s = .ok q) : ∃ v, OnCourse s ls v q := by
  obtain ⟨l, rest, rd, hw, hr, rfl⟩ := Progress.exists_of_step h.isAt hs
  have hl : ls[w.index]? = some l := getElem?_of_drop_cons hw
  have hfits : rd.stride.Fits l := Stride.fits_of_reading hr
  have hf : rd.stride ≠ .finish := fun hf => by
    rw [hf, Stride.Fits, hd l (List.mem_of_getElem? hl)] at hfits
    cases hfits
  -- What has not been read behind the step was not read before it, nor by it.
  have hunread : ∀ k, (p.after s ls w l rest rd).timesRead k = 0 →
      p.timesRead k = 0 ∧ ¬ (w.index ≤ k ∧ k ≤ w.index + rd.stride.count) := fun k hk => by
    rw [Progress.timesRead_after, List.count_range_1'] at hk
    split_ifs at hk
    omega
  rw [← hw] at hr
  cases hn : w.note? ls (rd.stride.inOrder s.order) with
  | none =>
    have hnext : w.next ls (rd.stride.inOrder s.order) = w.ahead rd.stride.count := by
      rw [Place.next_of_note?_eq_none hn (Stride.inOrder_ne_finish hf _), Stride.count_inOrder]
    refine ⟨_, hnext ▸ Progress.after_isAt, h.stage.past hr hn hf, fun k hk hun => ?_⟩
    obtain ⟨hun, hread⟩ := hunread k hun
    exact (h.pending k hk hun).past hread
  | some note =>
    have order : s.order = .lexer := by
      cases ho : s.order with
      | lexer => rfl
      | grammar => rw [ho, Place.note?_inOrder_grammar] at hn; cases hn
    rw [order, Stride.inOrder] at hn
    have hat : (p.after s ls w l rest rd).IsAt ls (w.next ls (rd.stride.inOrder s.order)) :=
      Progress.after_isAt
    rw [order, Stride.inOrder] at hat
    refine ⟨_, hat, h.stage.of_note? h.isAt hends hr order hn, fun k hk hun => ?_⟩
    obtain ⟨hun, hread⟩ := hunread k hun
    exact (h.pending k hk hun).of_note? h.stage.decreasing_openers (by omega) hl hfits hn

theorem Progress.Reaches.exists_onCourse (h : Reaches s (.start ls) q)
    (hd : ∀ l ∈ ls, l.hasKind .dataEnd = false) (hends : Ends s q) :
    ∃ w, OnCourse s ls w q := by
  induction h with
  | refl => exact ⟨_, .start s ls⟩
  | tail hb hs ih =>
    have hends := (Reaches.ends_iff (.single hs)).2 hends
    obtain ⟨w, hw⟩ := ih hends
    exact hw.step hd hends hs

namespace Job

/-- Of a conversion that succeeds without a data section, a lexeme that is not read stands on the
line of an opener, behind it, and the heredoc is still open where the lexemes end. -/
theorem exists_opener_of_not_read {j : Job} (hd : ∀ l ∈ j.lexemes, l.hasKind .dataEnd = false)
    (hend : j.run.2 = .finished) (hk : k < j.lexemes.length) (hun : j.run.1.timesRead k = 0) :
    ∃ o : ℕ, (o : Int) ∈ j.run.1.cursor.openers ∧ Behind j.lexemes o k := by
  have hexhausted : j.run.1.cursor.isExhausted = true := Progress.isExhausted_of_run hend
  have hends : Progress.Ends j.setting j.run.1 :=
    ⟨0, by rw [Progress.run_of_isExhausted hexhausted]; simp⟩
  obtain ⟨w, hw⟩ := (Progress.reaches_run _ _ _).exists_onCourse hd hends
  have hle := (Progress.isExhausted_iff hw.isAt).1 hexhausted
  cases hw.pending k hk hun with
  | ahead index openers fresh => omega
  | @behind o opener line =>
    have hcursor : j.run.1.cursor = w.cursor j.lexemes := hw.isAt
    refine ⟨o, ?_, line⟩
    rw [hcursor]
    exact List.mem_map_of_mem opener

/-- Each lexeme is read, unless it stands on the line of an opener, behind it, and the heredoc is
still open where the lexemes end. -/
theorem read_or_behind_opener {j : Job} {ts : List Token}
    (hd : ∀ l ∈ j.lexemes, l.hasKind .dataEnd = false) (h : j.outcome = .tokens ts) :
    ∀ k < j.lexemes.length, 1 ≤ j.run.1.timesRead k ∨
      ∃ o : ℕ, (o : Int) ∈ j.run.1.cursor.openers ∧ Behind j.lexemes o k := by
  intro k hk
  rcases Nat.eq_zero_or_pos (j.run.1.timesRead k) with hun | hread
  · exact .inr (exists_opener_of_not_read hd (outcome_eq_tokens_iff.1 h).1 hk hun)
  · exact .inl hread

/-- A heredoc without an end, and an argument behind its opener. -/
def unclosedHeredoc : Job where
  source := ⟨"open.rb", "p <<A, 1\nbody\n"⟩
  lexemes := [
    ⟨1, 0, LexemeKind.identifier.name, "p", .cmdArg⟩, ⟨1, 1, LexemeKind.space.name, " ", .cmdArg⟩,
    ⟨1, 2, LexemeKind.heredocBeg.name, "<<A", .ended⟩, ⟨1, 5, LexemeKind.comma.name, ",", .beg⟩,
    ⟨1, 6, LexemeKind.space.name, " ", .beg⟩, ⟨1, 7, LexemeKind.integer.name, "1", .ended⟩,
    ⟨1, 8, LexemeKind.newline.name, "\n", .beg⟩,
    ⟨2, 0, LexemeKind.tstringContent.name, "body\n", .beg⟩]

def unclosedHeredocTokens : List Token := [
  ⟨.identifier, .text "p", .sized 0 1⟩, ⟨.stringBeg, .text "<<", .sized 2 3⟩,
  ⟨.stringContent, .text "body\n", .sized 9 5⟩]

theorem read_or_behind_opener_unclosedHeredoc :
    unclosedHeredoc.outcome = .tokens unclosedHeredocTokens ∧
      ∀ k < unclosedHeredoc.lexemes.length, 1 ≤ unclosedHeredoc.run.1.timesRead k ∨
        ∃ o : ℕ, (o : Int) ∈ unclosedHeredoc.run.1.cursor.openers ∧
          Behind unclosedHeredoc.lexemes o k := by
  have h : unclosedHeredoc.outcome = .tokens unclosedHeredocTokens := by decide +kernel
  exact ⟨h, read_or_behind_opener (by decide) h⟩

/-- No step reads the argument behind the opener, and the conversion succeeds without it. -/
theorem timesRead_unclosedHeredoc : (∀ l ∈ unclosedHeredoc.lexemes, l.hasKind .dataEnd = false) ∧
    unclosedHeredoc.outcome = .tokens unclosedHeredocTokens ∧ 5 < unclosedHeredoc.lexemes.length ∧
    unclosedHeredoc.run.1.timesRead 5 = 0 :=
  ⟨by decide, by decide +kernel, by decide, by decide +kernel⟩

end Job

end RubyTokens
