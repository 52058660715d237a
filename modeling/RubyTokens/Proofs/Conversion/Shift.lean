import RubyTokens.Proofs.Conversion.Ending

/-! Lexemes in front. A run that has come behind some lexemes, while no heredoc is open and no line
is to be taken up again, makes the steps of a run over the lexemes behind them alone: all that it
looks at lies from there on, and all that it records does, so the places of the two runs differ by
the number of lexemes in front. The runs end alike, or neither of them ends. -/

namespace RubyTokens

/-- The outcome with some tokens in front of those of a success. -/
def Outcome.behind (ts : List Token) : Outcome → Outcome
  | .tokens ts' => .tokens (ts ++ ts')
  | .failed f => .failed f
  | .unfinished => .unfinished

variable {s : Setting} {front ls : List Lexeme} {w : Place} {ts : List Token} {p p' q : Progress}

/-! ### Places -/

namespace Place

/-- The place with `n` lexemes more in front. -/
def shift (n : ℕ) (w : Place) : Place :=
  ⟨n + w.index, w.openers.map (n + ·), w.resume.map (n + ·)⟩

@[simp] theorem index_shift (n : ℕ) (w : Place) : (w.shift n).index = n + w.index := rfl

theorem ahead_shift (n k : ℕ) (w : Place) : (w.shift n).ahead k = (w.ahead k).shift n := by
  simp only [ahead, shift, Nat.add_assoc]

/-- A body that begins behind the end of the line, or behind a heredoc of the line, is no farther
from its opener with lexemes in front. -/
theorem body?_shift (front ls : List Lexeme) (w : Place) :
    (w.shift front.length).body? (front ++ ls) = (w.body? ls).map (front.length + ·) := by
  obtain ⟨i, openers, resume⟩ := w
  cases resume with
  | some r => rfl
  | none =>
    simp only [body?, shift, Option.map_none, Nat.add_assoc, List.drop_length_add_append,
      Option.map_map]
    rfl

/-- A stride leads as far with lexemes in front. -/
theorem next_shift (front ls : List Lexeme) (w : Place) (stride : Stride) :
    (w.shift front.length).next (front ++ ls) stride = (w.next ls stride).shift front.length := by
  cases stride with
  | past k => exact ahead_shift _ k w
  | finish =>
    rw [next, next, List.length_append]
    rfl
  | openHeredoc =>
    have hbody := body?_shift front ls w
    cases hb : w.body? ls with
    | none =>
      rw [hb] at hbody
      rw [next_openHeredoc_of_none hb, next_openHeredoc_of_none hbody, ahead_shift]
    | some b =>
      rw [hb] at hbody
      rw [next_openHeredoc hb, next_openHeredoc hbody]
      rfl
  | closeHeredoc =>
    obtain ⟨i, openers, resume⟩ := w
    cases openers with
    | nil => exact ahead_shift _ 0 _
    | cons o openers => rfl
  | endLine =>
    obtain ⟨i, openers, resume⟩ := w
    cases resume with
    | none => cases openers <;> exact ahead_shift _ 0 _
    | some r =>
      cases openers with
      | nil => rfl
      | cons o openers => exact ahead_shift _ 0 _

end Place

/-! ### Runs side by side -/

namespace Progress

/-- The second run is the first one with some lexemes in front, and with their tokens. -/
structure Shifted (front ls : List Lexeme) (ts : List Token) (p q : Progress) : Prop where
  place : ∃ w : Place, p.IsAt ls w ∧ q.IsAt (front ++ ls) (w.shift front.length)
  state : q.state = p.state
  tokens : q.tokens = ts ++ p.tokens

namespace Shifted

theorem isExhausted_iff (h : Shifted front ls ts p q) :
    q.cursor.isExhausted = true ↔ p.cursor.isExhausted = true := by
  obtain ⟨w, hp, hq⟩ := h.place
  rw [Progress.isExhausted_iff hp, Progress.isExhausted_iff hq, List.length_append,
    Place.index_shift, Nat.add_le_add_iff_left]

/-- Where one run makes a step, the other one makes the same step. -/
theorem step (h : Shifted front ls ts p q) (hs : p.step s = .ok p') :
    ∃ q', q.step s = .ok q' ∧ Shifted front ls ts p' q' := by
  obtain ⟨w, hp, hq⟩ := h.place
  obtain ⟨l, rest, r, hdrop, hr, rfl⟩ := exists_of_step hp hs
  have hdrop' : (front ++ ls).drop (w.shift front.length).index = l :: rest :=
    (List.drop_length_add_append w.index).trans hdrop
  refine ⟨q.after s (front ++ ls) (w.shift front.length) l rest r, ?_, ⟨_, after_isAt, ?_⟩,
    rfl, ?_⟩
  · rw [step_eq hq hdrop', h.state, hr]
    rfl
  · rw [← Place.next_shift]
    exact after_isAt
  · rw [tokens_after, tokens_after, h.tokens, List.append_assoc]

/-- Where one run fails, the other one fails alike. -/
theorem step_error {f : Failure} (h : Shifted front ls ts p q)
    (he : p.cursor.isExhausted = false) (hs : p.step s = .error f) : q.step s = .error f := by
  obtain ⟨w, hp, hq⟩ := h.place
  obtain ⟨l, rest, hdrop, hr⟩ := exists_of_step_error hp he hs
  rw [step_eq hq ((List.drop_length_add_append w.index).trans hdrop), h.state, hr]
  rfl

/-- Both runs come to the same ending, and the tokens in front stay the only difference. -/
theorem run (h : Shifted front ls ts p q) (fuel : ℕ) :
    (Progress.run s fuel q).2 = (Progress.run s fuel p).2 ∧
      (Progress.run s fuel q).1.tokens = ts ++ (Progress.run s fuel p).1.tokens := by
  induction fuel generalizing p q with
  | zero =>
    have he : q.cursor.isExhausted = p.cursor.isExhausted := Bool.eq_iff_iff.2 h.isExhausted_iff
    rw [Progress.run, Progress.run, he]
    exact ⟨rfl, h.tokens⟩
  | succ fuel ih =>
    by_cases he : p.cursor.isExhausted = true
    · rw [run_of_isExhausted he, run_of_isExhausted (h.isExhausted_iff.2 he)]
      exact ⟨rfl, h.tokens⟩
    have he' : q.cursor.isExhausted = false := by simpa using mt h.isExhausted_iff.1 he
    have he : p.cursor.isExhausted = false := by simpa using he
    cases hs : p.step s with
    | error f =>
      rw [run_succ_of_failure he hs, run_succ_of_failure he' (h.step_error he hs)]
      exact ⟨rfl, h.tokens⟩
    | ok next =>
      obtain ⟨next', hs', hnext⟩ := h.step hs
      rw [run_succ_of_step he hs, run_succ_of_step he' hs']
      exact ih hnext

theorem ends_iff (h : Shifted front ls ts p q) : Ends s q ↔ Ends s p :=
  exists_congr fun fuel => by rw [(h.run fuel).1]

end Shifted

end Progress

namespace Job

/-- A run that does not come to an end within the steps that it is given does not end. -/
theorem unfinished_iff (j : Job) :
    j.run.2 = .unfinished ↔ ¬ Progress.Ends j.setting (.start j.lexemes) := by
  rcases j.run_or_trapped with ⟨hend, -⟩ | ⟨-, hend⟩
  · exact iff_of_false hend (not_not_intro ⟨_, hend⟩)
  · exact iff_of_true (by_contra fun h => hend ⟨_, h⟩) hend

/-- The conversion with some lexemes in front. -/
def withFront (front : List Lexeme) (j : Job) : Job := { j with lexemes := front ++ j.lexemes }

/-- If a conversion comes behind the lexemes in front as if it began there, its outcome is that of
the lexemes behind them, behind the tokens made so far. -/
theorem outcome_withFront {j : Job}
    (hreach : Progress.Reaches j.setting (.start (front ++ j.lexemes)) q)
    (h : Progress.Shifted front j.lexemes ts (.start j.lexemes) q) :
    (j.withFront front).outcome = j.outcome.behind ts := by
  rw [outcome_eq, outcome_eq]
  by_cases hend : Progress.Ends j.setting (.start j.lexemes)
  · obtain ⟨fuel, hfuel⟩ := hend
    obtain ⟨more, hmore⟩ := hreach.exists_run
    obtain ⟨hending, htokens⟩ := h.run (s := j.setting) fuel
    have hrun : (j.withFront front).run = Progress.run j.setting fuel q := by
      rw [← hmore fuel]
      refine run_eq_of_ends (j := j.withFront front) ?_
      change (Progress.run j.setting (more + fuel) (.start (front ++ j.lexemes))).2 ≠ _
      rw [hmore fuel, hending]
      exact hfuel
    rw [hrun, run_eq_of_ends hfuel, hending, htokens]
    cases (Progress.run j.setting fuel (.start j.lexemes)).2 <;> rfl
  · have hend' : ¬ Progress.Ends (j.withFront front).setting (.start (front ++ j.lexemes)) := by
      change ¬ Progress.Ends j.setting (.start (front ++ j.lexemes))
      rw [hreach.ends_iff, h.ends_iff]
      exact hend
    rw [(unfinished_iff j).2 hend, (unfinished_iff (j.withFront front)).2 hend']
    rfl

end Job

end RubyTokens
