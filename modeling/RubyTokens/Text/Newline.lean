import RubyTokens.Text.Basic

/-! Line ends. A file that is read as text has all its line ends as U+000A: a carriage return,
alone or before a line feed, stands for one. A lexeme's text keeps what the source has, and is
chomped of one line end at most. -/

namespace RubyTokens

/-- Every carriage return, with the line feed after it if there is one, becomes a line feed. -/
def unifyNewlines : List Char → List Char
  | [] => []
  | '\r' :: '\n' :: cs => '\n' :: unifyNewlines cs
  | '\r' :: cs => '\n' :: unifyNewlines cs
  | c :: cs => c :: unifyNewlines cs

/-- Code points without a line end at their end. -/
def chompPoints : List CodePoint → List CodePoint
  | [] => []
  | [.char '\n'] => []
  | [.char '\r', .char '\n'] => []
  | p :: ps => p :: chompPoints ps

/-- A text without its last line end. -/
def chomp (t : Text) : Text := ⟨chompPoints t.points⟩

theorem unifyNewlines_of_no_return {cs : List Char} (h : '\r' ∉ cs) : unifyNewlines cs = cs := by
  fun_induction unifyNewlines cs with
  | case1 => rfl
  | case2 => simp at h
  | case3 => simp at h
  | case4 c cs _ _ ih => rw [ih (fun hm => h (List.mem_cons_of_mem _ hm))]

/-- What is chomped is nothing or one of the two line ends. -/
theorem chompPoints_append (ps : List CodePoint) :
    ∃ e, ps = chompPoints ps ++ e ∧
      (e = [] ∨ e = [.char '\n'] ∨ e = [.char '\r', .char '\n']) := by
  fun_induction chompPoints ps with
  | case1 => exact ⟨[], rfl, .inl rfl⟩
  | case2 => exact ⟨[.char '\n'], rfl, .inr (.inl rfl)⟩
  | case3 => exact ⟨[.char '\r', .char '\n'], rfl, .inr (.inr rfl)⟩
  | case4 p ps _ _ ih =>
    obtain ⟨e, he, h⟩ := ih
    exact ⟨e, by rw [List.cons_append, ← he], h⟩

/-- What is left is the beginning of whatever stands in front of a line end. -/
theorem chompPoints_isPrefixOf {ps xs e : List CodePoint} (h : ps = xs ++ e)
    (he : e = [.char '\n'] ∨ e = [.char '\r', .char '\n']) : chompPoints ps <+: xs := by
  fun_induction chompPoints ps generalizing xs with
  | case1 => exact List.nil_prefix
  | case2 => exact List.nil_prefix
  | case3 => exact List.nil_prefix
  | case4 p ps hfeed hreturn ih =>
    cases xs with
    | nil =>
      rcases he with rfl | rfl <;> cases h
      · exact (hfeed rfl rfl).elim
      · exact (hreturn rfl rfl).elim
    | cons x xs =>
      obtain ⟨rfl, hps⟩ := List.cons.inj h
      exact List.cons_prefix_cons.2 ⟨rfl, ih hps⟩

end RubyTokens
