import RubyTokens.Proofs.Conversion.Placement
import RubyTokens.Proofs.Cursor.Protocol

/-! The order of tokens. Lexemes that stop before the next one begins may have gaps between them,
and their texts need not stand in the source. Where no heredoc is opened the cursor goes forward
only, and the tokens of a step lie between the beginning of the step's lexeme and whatever follows
the last lexeme that the step reads; so all tokens made before a step stop before those of the step
begin. -/

namespace RubyTokens

namespace Lexeme

/-- The byte that the lexeme says it begins at, which need not be a byte of the source. -/
def start? (lines : LineTable) (l : Lexeme) : Option Int :=
  if l.line < 1 then none
  else lines.starts[(l.line - 1).toNat]?.map fun start : ℕ => start + l.column

/-- The byte that the lexeme stops at, if its text has bytes. -/
def stop? (lines : LineTable) (l : Lexeme) : Option Int :=
  (l.start? lines).bind fun start => l.byteLength.toOption.map fun n : ℕ => start + n

/-- The lexeme stops before the other one begins, with or without a gap. -/
def Before (lines : LineTable) (l l' : Lexeme) : Prop :=
  ∃ stop ∈ l.stop? lines, ∃ start ∈ l'.start? lines, stop ≤ start

instance (lines : LineTable) : DecidableRel (Before lines) := fun l l' =>
  inferInstanceAs (Decidable (∃ stop ∈ l.stop? lines, ∃ start ∈ l'.start? lines, stop ≤ start))

variable {lines : LineTable} {l l' x : Lexeme} {a b : Int} {o : ℕ}

theorem start?_of_offset (h : lines.offset l.line l.column = .ok o) :
    l.start? lines = some (o : Int) := by
  obtain ⟨hline, start, hstart, heq⟩ := LineTable.offset_eq_ok_iff.1 h
  rw [start?, if_neg (by omega), hstart, Option.map_some, heq]

theorem exists_of_stop? (h : l.stop? lines = some b) :
    ∃ (a : Int) (y : String), l.start? lines = some a ∧ l.text = y ∧ b = a + y.utf8ByteSize := by
  obtain ⟨a, ha, h⟩ := Option.bind_eq_some_iff.1 h
  obtain ⟨n, hn, rfl⟩ := Option.map_eq_some_iff.1 h
  cases hlength : l.byteLength with
  | error e => rw [hlength] at hn; cases hn
  | ok m =>
    rw [hlength] at hn
    cases hn
    obtain ⟨y, hy, rfl⟩ := Yield.exists_of_byteLength hlength
    exact ⟨a, y, ha, hy, rfl⟩

theorem Before.exists_text (h : l.Before lines l') : ∃ (a b : Int) (y : String),
    l.start? lines = some a ∧ l'.start? lines = some b ∧ l.text = y ∧ a + y.utf8ByteSize ≤ b := by
  obtain ⟨stop, hstop, b, hb, hle⟩ := h
  obtain ⟨a, y, ha, hy, rfl⟩ := exists_of_stop? hstop
  exact ⟨a, b, y, ha, hb, hy, hle⟩

instance (lines : LineTable) : IsTrans Lexeme (Before lines) where
  trans l l' l'' h h' := by
    obtain ⟨stop, hstop, start, hstart, hle⟩ := h
    obtain ⟨a, b, y, ha, hb, -, hle'⟩ := h'.exists_text
    obtain rfl : start = a := Option.some.inj (hstart.symm.trans ha)
    exact ⟨stop, hstop, b, hb, by omega⟩

end Lexeme

variable {lines : LineTable} {options : Options} {ls behind rest : List Lexeme} {l x : Lexeme}
variable {ts : List Token} {b : Int} {o n : ℕ} {span : Span} {state : State} {w : Place}
variable {p q : Progress}

/-! ### Texts in a row -/

/-- Lexemes in a row, all of them before another one, have the bytes of their texts between the
beginning of the first and that of the other. -/
theorem exists_text_of_pairwise (h : (l :: behind).Pairwise (Lexeme.Before lines))
    (hx : ∀ y ∈ l :: behind, y.Before lines x) : ∃ (a b : Int) (y : String),
      l.start? lines = some a ∧ x.start? lines = some b ∧
      Text.join ((l :: behind).map Lexeme.text) = y ∧ a + y.utf8ByteSize ≤ b := by
  induction behind generalizing l with
  | nil =>
    obtain ⟨a, b, y, ha, hb, hy, hle⟩ := (hx l List.mem_cons_self).exists_text
    exact ⟨a, b, y, ha, hb, by rw [List.map_singleton, Text.join_singleton, hy], hle⟩
  | cons l' behind ih =>
    obtain ⟨hl, htail⟩ := List.pairwise_cons.1 h
    obtain ⟨a', b, z, ha', hb, hz, hle⟩ := ih htail fun y hy => hx y (List.mem_cons_of_mem _ hy)
    obtain ⟨a, c, y, ha, hc, hy, hle'⟩ := (hl l' List.mem_cons_self).exists_text
    obtain rfl : a' = c := Option.some.inj (ha'.symm.trans hc)
    refine ⟨a, b, y ++ z, ha, hb, ?_, ?_⟩
    · rw [List.map_cons, Text.join_cons, hy, hz, Text.ofString_append]
    · rw [String.utf8ByteSize_append]
      omega

/-! ### Tokens of one step -/

theorem Yield.exists_offset (h : spanAt lines l 0 n = .ok span) :
    ∃ o, lines.offset l.line l.column = .ok o := by
  obtain ⟨o, ho, -⟩ := exists_of_bind (ok_of_mapError h)
  rw [Int.natCast_zero, Int.add_zero] at ho
  exact ⟨o, ho⟩

theorem Yield.exists_sized (h : spanOf lines l = .ok span) : ∃ (o : ℕ) (y : String),
    l.start? lines = some (o : Int) ∧ l.text = y ∧ span = .sized o y.utf8ByteSize := by
  obtain ⟨y, hy, hat⟩ := exists_of_spanOf h
  obtain ⟨o, ho⟩ := exists_offset hat
  exact ⟨o, y, Lexeme.start?_of_offset ho, hy, spanOf_eq ho hy h⟩

/-- The range of a lexeme stops before a lexeme that the lexeme stands before. -/
theorem Lexeme.Before.stop_le (h : l.Before lines x) (hb : x.start? lines = some b)
    (hspan : Yield.spanOf lines l = .ok span) : span.stop ≤ b := by
  obtain ⟨o, y, ho, hy, rfl⟩ := Yield.exists_sized hspan
  obtain ⟨a, b', z, ha, hb', hz, hle⟩ := h.exists_text
  obtain rfl := Text.ofString_inj (hy.symm.trans hz)
  have := Option.some.inj (ha.symm.trans ho)
  have := Option.some.inj (hb.symm.trans hb')
  rw [Span.stop_sized]
  omega

theorem Cut.exists_lays {y : String} (h : Cut lines ls l 0 ts y) (hne : ts ≠ []) :
    ∃ o : ℕ, l.start? lines = some (o : Int) ∧ Lays ls o ts y := by
  obtain ⟨o, ho⟩ : ∃ o, lines.offset l.line l.column = .ok o := by
    cases h with
    | nil => exact absurd rfl hne
    | cons hspan => exact Yield.exists_offset hspan
  exact ⟨o, Lexeme.start?_of_offset ho, Nat.add_zero o ▸ h.lays ho⟩

theorem Lays.within {y : String} (h : Lays ls o ts y) :
    ∀ t ∈ ts, o ≤ t.span.start ∧ t.span.stop ≤ o + y.utf8ByteSize := by
  induction h with
  | nil => exact List.forall_mem_nil _
  | cons hspan _ _ ih =>
    rw [String.utf8ByteSize_append]
    refine List.forall_mem_cons.2 ⟨?_, fun t ht => ?_⟩
    · rw [hspan, Span.start_sized, Span.stop_sized]
      omega
    · have := ih t ht
      omega

theorem Lays.sorted {y : String} (h : Lays ls o ts y) :
    ts.Pairwise fun t u => t.span.stop ≤ u.span.start := by
  induction h with
  | nil => exact .nil
  | cons hspan _ hbehind ih =>
    refine List.pairwise_cons.2 ⟨fun u hu => ?_, ih⟩
    rw [hspan, Span.stop_sized]
    exact (hbehind.within u hu).1

namespace Rendered

variable {text : Text}

/-- The tokens of a step are in order. -/
theorem sorted (h : Rendered lines ls l behind ts text) :
    ts.Pairwise fun t u => t.span.stop ≤ u.span.start := by
  cases h with
  | whole => exact List.pairwise_singleton ..
  | pieces hcut =>
    by_cases hne : ts = []
    · exact hne ▸ .nil
    · obtain ⟨o, -, hlays⟩ := hcut.exists_lays hne
      exact hlays.sorted

/-- No token of a step begins before the step's lexeme does. -/
theorem start_le (h : Rendered lines ls l behind ts text)
    (hbehind : ∀ y ∈ behind, l.Before lines y) :
    ∀ t ∈ ts, ∃ a, l.start? lines = some a ∧ a ≤ t.span.start := by
  intro t ht
  cases h with
  | pieces hcut =>
    obtain ⟨o, ho, hlays⟩ := hcut.exists_lays (List.ne_nil_of_mem ht)
    exact ⟨o, ho, Int.ofNat_le.2 (hlays.within t ht).1⟩
  | whole first_eq last_eq span _ =>
    obtain rfl := List.mem_singleton.1 ht
    obtain ⟨o, y, ho, -, rfl⟩ := Yield.exists_sized first_eq
    refine ⟨o, ho, ?_⟩
    rw [span, Span.start_cover, Span.start_sized]
    rcases List.mem_cons.1 (List.getLastD_mem_cons (l := behind) (a := l)) with hlast | hlast
    · rw [hlast, first_eq] at last_eq
      cases last_eq
      rw [Span.start_sized, Nat.min_self]
    · obtain ⟨o', y', ho', -, rfl⟩ := Yield.exists_sized last_eq
      have := (hbehind _ hlast).stop_le ho' first_eq
      rw [Span.stop_sized] at this
      rw [Span.start_sized]
      omega

/-- No token of a step goes beyond a lexeme behind all those that the step reads. -/
theorem stop_le (h : Rendered lines ls l behind ts (shown options l behind))
    (hrow : (l :: behind).Pairwise (Lexeme.Before lines))
    (hx : ∀ y ∈ l :: behind, y.Before lines x) (hb : x.start? lines = some b) :
    ∀ t ∈ ts, t.span.stop ≤ b := by
  intro t ht
  generalize htext : shown options l behind = text at h
  cases h with
  | pieces hcut =>
    obtain ⟨o, ho, hlays⟩ := hcut.exists_lays (List.ne_nil_of_mem ht)
    obtain ⟨a, b', y, ha, hb', hy, hle⟩ := exists_text_of_pairwise hrow hx
    obtain ⟨t', happend⟩ := exists_shown_append options l behind
    rw [hy, htext] at happend
    obtain ⟨z, z', hz, -, rfl⟩ := Text.exists_of_append happend
    obtain rfl := Text.ofString_inj hz
    have := Option.some.inj (ha.symm.trans ho)
    have := Option.some.inj (hb.symm.trans hb')
    have := (hlays.within t ht).2
    rw [String.utf8ByteSize_append] at hle
    omega
  | whole first_eq last_eq span _ =>
    obtain rfl := List.mem_singleton.1 ht
    have := (hx _ List.mem_cons_self).stop_le hb first_eq
    have := (hx _ List.getLastD_mem_cons).stop_le hb last_eq
    rw [span, Span.stop_cover]
    omega

end Rendered

/-! ### Runs -/

/-- Where no heredoc is open and none was read, all strides lead on but that of an opener. -/
theorem Place.exists_next (ho : w.openers = []) (hr : w.resume = none) {stride : Stride}
    (hs : stride ≠ .openHeredoc) (hi : w.index < ls.length) :
    ∃ i, w.next ls stride = ⟨i, [], none⟩ ∧ w.index + 1 + stride.count ≤ i := by
  obtain ⟨i, openers, resume⟩ := w
  dsimp only at ho hr hi
  subst ho hr
  cases stride with
  | past k => exact ⟨_, rfl, Nat.le_refl _⟩
  | finish => exact ⟨_, rfl, hi⟩
  | openHeredoc => exact absurd rfl hs
  | closeHeredoc => exact ⟨_, rfl, Nat.le_refl _⟩
  | endLine => exact ⟨_, rfl, Nat.le_refl _⟩

/-- There, a lexeme that opens no heredoc leads to the lexemes behind those that its step reads. -/
theorem Place.exists_next_of_reading {s : Setting} {r : Reading} (ho : w.openers = [])
    (hr : w.resume = none) (hl : l.hasKind .heredocBeg = false)
    (hdrop : ls.drop w.index = l :: rest)
    (hread : reading s.lines s.options state (l :: rest) = .ok r) :
    ∃ i, w.next ls (r.stride.inOrder s.order) = ⟨i, [], none⟩ ∧
      ls.drop i ⊆ rest.drop r.stride.count := by
  have hopens : r.stride.inOrder s.order ≠ .openHeredoc := by
    intro hopen
    have hfits := (Stride.fits_of_reading hread).inOrder s.order
    rw [hopen, Stride.Fits, hl] at hfits
    cases hfits
  have hlt : w.index < ls.length := by
    rw [length_eq hdrop]
    omega
  obtain ⟨i, hnext, hi⟩ := exists_next ho hr hopens hlt
  refine ⟨i, hnext, ?_⟩
  have hsubset := List.drop_subset_drop_left ls hi
  rw [Stride.count_inOrder, ← List.drop_drop, drop_of_drop_cons hdrop] at hsubset
  exact hsubset

namespace Progress

/-- At a stage of a run no heredoc is open and none was read. The tokens made so far are in order,
and none of them goes beyond a lexeme from here on. -/
structure IsSorted (lines : LineTable) (ls : List Lexeme) (w : Place) (q : Progress) : Prop where
  openers : w.openers = []
  resume : w.resume = none
  sorted : q.tokens.Pairwise fun t u => t.span.stop ≤ u.span.start
  stop_le : ∀ t ∈ q.tokens, ∀ x ∈ ls.drop w.index, ∀ b, x.start? lines = some b → t.span.stop ≤ b

/-- A step makes tokens behind those that there are. -/
theorem IsSorted.after {s : Setting} {r : Reading} (h : p.IsSorted s.lines ls w)
    (hrow : ls.Pairwise (Lexeme.Before s.lines)) (hn : ∀ l ∈ ls, l.hasKind .heredocBeg = false)
    (hdrop : ls.drop w.index = l :: rest)
    (hr : reading s.lines s.options p.state (l :: rest) = .ok r) :
    (p.after s ls w l rest r).IsSorted s.lines ls (w.next ls (r.stride.inOrder s.order)) := by
  have hl : l ∈ ls := List.mem_of_mem_drop (hdrop ▸ List.mem_cons_self)
  obtain ⟨i, hnext, hsubset⟩ :=
    Place.exists_next_of_reading (s := s) h.openers h.resume (hn l hl) hdrop hr
  have hrendered := rendered_of_reading (hdrop ▸ List.drop_suffix w.index ls) hr
  have hsplit : l :: rest = (l :: rest.take r.stride.count) ++ rest.drop r.stride.count := by
    rw [List.cons_append, List.take_append_drop]
  have hrest : (l :: rest).Pairwise (Lexeme.Before s.lines) :=
    hdrop ▸ hrow.sublist (List.drop_sublist ..)
  rw [hsplit] at hrest
  obtain ⟨hread, -, hbehind⟩ := List.pairwise_append.1 hrest
  rw [hnext]
  refine ⟨rfl, rfl, ?_, ?_⟩
  · rw [tokens_after]
    refine List.pairwise_append.2 ⟨h.sorted, hrendered.sorted, fun t ht u hu => ?_⟩
    obtain ⟨a, ha, hle⟩ := hrendered.start_le (List.pairwise_cons.1 hread).1 u hu
    have := h.stop_le t ht l (hdrop ▸ List.mem_cons_self) a ha
    omega
  · intro t ht x hx b hb
    have hx' := hsubset hx
    rw [tokens_after] at ht
    rcases List.mem_append.1 ht with ht | ht
    · refine h.stop_le t ht x ?_ b hb
      rw [hdrop]
      exact List.mem_cons_of_mem _ (List.mem_of_mem_drop hx')
    · exact hrendered.stop_le hread (fun y hy => hbehind y hy x hx') hb t ht

theorem Reaches.exists_isSorted {s : Setting} (hrow : ls.Pairwise (Lexeme.Before s.lines))
    (hn : ∀ l ∈ ls, l.hasKind .heredocBeg = false) (h : Reaches s (.start ls) q) :
    ∃ w, q.IsAt ls w ∧ q.IsSorted s.lines ls w := by
  induction h with
  | refl => exact ⟨_, start_isAt ls, rfl, rfl, .nil, List.forall_mem_nil _⟩
  | tail _ hs ih =>
    obtain ⟨w, hw, hsorted⟩ := ih
    obtain ⟨l, rest, r, hdrop, hr, rfl⟩ := exists_of_step hw hs
    exact ⟨_, after_isAt, hsorted.after hrow hn hdrop hr⟩

end Progress

namespace Job

/-- Where no lexeme opens a heredoc and each one stops before the next one begins, the tokens are in
the order of the source, and no two of them overlap. -/
theorem sorted_of_isChain {j : Job} (hrow : j.lexemes.IsChain (Lexeme.Before j.setting.lines))
    (hn : ∀ l ∈ j.lexemes, l.hasKind .heredocBeg = false) (h : j.outcome = .tokens ts) :
    ts.Pairwise fun t u => t.span.stop ≤ u.span.start := by
  obtain ⟨-, rfl⟩ := outcome_eq_tokens_iff.1 h
  obtain ⟨w, -, hsorted⟩ :=
    (Progress.reaches_run _ _ _).exists_isSorted (s := j.setting) hrow.pairwise hn
  exact hsorted.sorted

/-- A sign that is split off, line ends that are left out, folds of one to three lexemes, and the
end of a heredoc that was never opened. -/
def foldedLines : Job where
  source := ⟨"folds.rb", "a +1 # c\n:s \"q\" /r/i\n=begin\nd\n=end\nE\n"⟩
  lexemes := [
    ⟨1, 0, LexemeKind.identifier.name, "a", .cmdArg⟩,
    ⟨1, 2, LexemeKind.integer.name, "+1", .ended⟩,
    ⟨1, 5, LexemeKind.comment.name, "# c\n", .beg⟩,
    ⟨2, 0, LexemeKind.symbeg.name, ":", .fname⟩,
    ⟨2, 1, LexemeKind.identifier.name, "s", .ended⟩,
    ⟨2, 3, LexemeKind.tstringBeg.name, "\"", .beg⟩,
    ⟨2, 4, LexemeKind.tstringContent.name, "q", .beg⟩,
    ⟨2, 5, LexemeKind.tstringEnd.name, "\"", .ended⟩,
    ⟨2, 7, LexemeKind.regexpBeg.name, "/", .beg⟩,
    ⟨2, 8, LexemeKind.tstringContent.name, "r", .beg⟩,
    ⟨2, 9, LexemeKind.regexpEnd.name, "/i", .ended⟩,
    ⟨2, 11, LexemeKind.newline.name, "\n", .beg⟩,
    ⟨3, 0, LexemeKind.embdocBeg.name, "=begin\n", .beg⟩,
    ⟨4, 0, LexemeKind.embdoc.name, "d\n", .beg⟩,
    ⟨5, 0, LexemeKind.embdocEnd.name, "=end\n", .beg⟩,
    ⟨6, 0, LexemeKind.heredocEnd.name, "E\n", .beg⟩]

def foldedLinesTokens : List Token := [
  ⟨.identifier, .text "a", .sized 0 1⟩, ⟨.unaryNum, .text "+", .sized 2 1⟩,
  ⟨.integer, .integer 1, .sized 3 1⟩, ⟨.comment, .text "# c", .sized 5 3⟩,
  ⟨.symbol, .text "s", .sized 9 2⟩, ⟨.string, .text "q", .sized 12 3⟩,
  ⟨.regexpBeg, .text "/", .sized 16 1⟩, ⟨.stringContent, .text "r", .sized 17 1⟩,
  ⟨.stringEnd, .text "/", .sized 18 1⟩, ⟨.regexpOpt, .text "i", .sized 19 1⟩,
  ⟨.newline, .absent, .sized 20 1⟩, ⟨.comment, .text "=begin\nd\n=end\n", .sized 21 14⟩,
  ⟨.stringEnd, .text "E", .sized 35 1⟩]

theorem sorted_of_isChain_foldedLines :
    foldedLines.lexemes.IsChain (Lexeme.Before foldedLines.setting.lines) ∧
      (∀ l ∈ foldedLines.lexemes, l.hasKind .heredocBeg = false) ∧
      foldedLines.outcome = .tokens foldedLinesTokens ∧
      foldedLinesTokens.Pairwise fun t u => t.span.stop ≤ u.span.start := by
  have hrow : foldedLines.lexemes.IsChain (Lexeme.Before foldedLines.setting.lines) := by
    decide +kernel
  have hn : ∀ l ∈ foldedLines.lexemes, l.hasKind .heredocBeg = false := by decide +kernel
  have h : foldedLines.outcome = .tokens foldedLinesTokens := by decide +kernel
  exact ⟨hrow, hn, h, sorted_of_isChain hrow hn h⟩

end Job

end RubyTokens
