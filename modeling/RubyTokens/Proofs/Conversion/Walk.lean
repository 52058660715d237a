import Mathlib.Logic.Relation
import RubyTokens.Proofs.Conversion.Place

/-! The course of a run: the stages that steps lead through. Steps are determined, so a run that
comes to an end passes every stage that is reached from its beginning, and nothing follows behind
its end. -/

namespace RubyTokens

namespace Progress

variable {s : Setting} {p q : Progress} {ls : List Lexeme} {w : Place} {fuel : ℕ}

/-- Steps lead from one stage of a run to another one. -/
def Reaches (s : Setting) : Progress → Progress → Prop :=
  Relation.ReflTransGen fun p q => p.step s = .ok q

/-- The run comes to an end, in success or in failure. -/
def Ends (s : Setting) (p : Progress) : Prop := ∃ fuel, (run s fuel p).2 ≠ .unfinished

theorem isExhausted_of_step (h : p.step s = .ok q) : p.cursor.isExhausted = false := by
  by_contra he
  have hle : (p.cursor.lexemes.length : Int) ≤ p.cursor.index :=
    of_decide_eq_true (Bool.not_eq_false _ ▸ he)
  have hpos : ¬ p.cursor.index < 0 := by omega
  have hnone : p.cursor.lexemes[p.cursor.index.toNat]? = none :=
    List.getElem?_eq_none (by omega)
  simp only [step, Cursor.current, Cursor.lexemeAt, hpos, ↓reduceIte, hnone, Option.elim_none] at h
  cases h

/-! ### Stages of a run -/

theorem reaches_run (s : Setting) (fuel : ℕ) (p : Progress) : Reaches s p (run s fuel p).1 := by
  induction fuel generalizing p with
  | zero => exact .refl
  | succ fuel ih =>
    by_cases he : p.cursor.isExhausted = true
    · rw [run_of_isExhausted he]
      exact .refl
    · have he : p.cursor.isExhausted = false := by simpa using he
      cases hs : p.step s with
      | error failure =>
        rw [run_succ_of_failure he hs]
        exact .refl
      | ok next =>
        rw [run_succ_of_step he hs]
        exact .head hs (ih next)

theorem isExhausted_of_run (h : (run s fuel p).2 = .finished) :
    (run s fuel p).1.cursor.isExhausted = true := by
  induction fuel generalizing p with
  | zero =>
    by_cases he : p.cursor.isExhausted = true
    · exact he
    · simp [run, he] at h
  | succ fuel ih =>
    by_cases he : p.cursor.isExhausted = true
    · rw [run_of_isExhausted he]
      exact he
    · have he : p.cursor.isExhausted = false := by simpa using he
      cases hs : p.step s with
      | error failure =>
        rw [run_succ_of_failure he hs] at h
        cases h
      | ok next =>
        rw [run_succ_of_step he hs] at h ⊢
        exact ih h

/-- A run goes through every stage that is reached. -/
theorem Reaches.exists_run (h : Reaches s p q) :
    ∃ k, ∀ fuel, run s (k + fuel) p = run s fuel q := by
  induction h using Relation.ReflTransGen.head_induction_on with
  | refl => exact ⟨0, fun fuel => by rw [Nat.zero_add]⟩
  | head hs _ ih =>
    obtain ⟨k, hk⟩ := ih
    refine ⟨k + 1, fun fuel => ?_⟩
    rw [Nat.add_right_comm, run_succ_of_step (isExhausted_of_step hs) hs, hk]

/-- Two runs that come to an end come to the same one, if one begins at a stage of the other. -/
theorem Reaches.run_eq (h : Reaches s p q) {fuel' : ℕ} (hp : (run s fuel p).2 ≠ .unfinished)
    (hq : (run s fuel' q).2 ≠ .unfinished) : run s fuel p = run s fuel' q := by
  obtain ⟨k, hk⟩ := h.exists_run
  calc run s fuel p = run s (fuel + (k + fuel')) p := (run_add hp _).symm
    _ = run s (k + (fuel' + fuel)) p := by congr 1; omega
    _ = run s (fuel' + fuel) q := hk _
    _ = run s fuel' q := run_add hq fuel

theorem Reaches.ends_iff (h : Reaches s p q) : Ends s p ↔ Ends s q := by
  obtain ⟨k, hk⟩ := h.exists_run
  constructor
  · rintro ⟨fuel, hfuel⟩
    refine ⟨fuel, ?_⟩
    rw [← hk, Nat.add_comm, run_add hfuel]
    exact hfuel
  · rintro ⟨fuel, hfuel⟩
    refine ⟨k + fuel, ?_⟩
    rw [hk]
    exact hfuel

/-- What is reached from the same stage as the end of a run, the end is reached from. -/
theorem Reaches.of_isExhausted {p' : Progress} (h : Reaches s p q)
    (hq : q.cursor.isExhausted = true) (hp' : Reaches s p p') : Reaches s p' q := by
  have hunique : Relator.RightUnique fun p q : Progress => p.step s = .ok q := fun _ _ _ h h' =>
    Except.ok.inj (h.symm.trans h')
  rcases Relation.ReflTransGen.total_of_right_unique hunique h hp' with hqp | hpq
  · rcases Relation.ReflTransGen.cases_head hqp with rfl | ⟨r, hs, -⟩
    · exact .refl
    · rw [isExhausted_of_step hs] at hq
      cases hq
  · exact hpq

/-! ### What is kept on the way -/

variable {l : Lexeme} {rest : List Lexeme} {r : Reading}

theorem start_isAt (ls : List Lexeme) : (start ls).IsAt ls ⟨0, [], none⟩ := rfl

theorem after_isAt : (p.after s ls w l rest r).IsAt ls (w.next ls (r.stride.inOrder s.order)) := rfl

theorem tokens_after : (p.after s ls w l rest r).tokens = p.tokens ++ r.tokens := by
  simp [tokens, after]

theorem events_after :
    (p.after s ls w l rest r).events = p.events ++ w.events s.order ls l r.stride := by
  simp [events, after]

/-- The steps that read the lexeme at an index. -/
def timesRead (p : Progress) (k : ℕ) : ℕ :=
  p.history.countP fun made => decide (made.index ≤ (k : Int) ∧ (k : Int) ≤ made.last)

theorem timesRead_after (k : ℕ) : (p.after s ls w l rest r).timesRead k =
    p.timesRead k + (List.range' w.index (r.stride.count + 1)).count k := by
  rw [timesRead, after, List.countP_cons, List.count_range_1']
  simp only [decide_eq_true_eq, Int.ofNat_le]
  congr 1
  exact if_congr (by omega) rfl rfl

theorem Reaches.exists_isAt (h : Reaches s p q) (hp : p.IsAt ls w) : ∃ v, q.IsAt ls v := by
  induction h with
  | refl => exact ⟨w, hp⟩
  | tail _ hs ih =>
    obtain ⟨v, hv⟩ := ih
    obtain ⟨l, rest, r, -, -, rfl⟩ := exists_of_step hv hs
    exact ⟨_, after_isAt⟩

/-- A step has read lexemes of the list, the first of them at an index. -/
structure Made (s : Setting) (ls : List Lexeme) (made : Step) (i : ℕ) (l : Lexeme)
    (rest : List Lexeme) (r : Reading) : Prop where
  drop : ls.drop i = l :: rest
  reading : reading s.lines s.options made.state (l :: rest) = .ok r
  index : made.index = i
  last : made.last = (i + r.stride.count : ℕ)
  tokens : made.tokens = r.tokens

theorem Made.getElem? {made : Step} {i : ℕ} (h : Made s ls made i l rest r) : ls[i]? = some l :=
  getElem?_of_drop_cons h.drop

theorem Made.eq_of_index {made : Step} {i k : ℕ} {x : Lexeme} (h : Made s ls made i l rest r)
    (hk : ls[k]? = some x) (hki : k = i) : x = l := by
  subst hki
  exact Option.some.inj (hk.symm.trans h.getElem?)

theorem Reaches.exists_made (h : Reaches s (.start ls) q) {made : Step} (hm : made ∈ q.history) :
    ∃ i l rest r, Made s ls made i l rest r := by
  induction h with
  | refl => exact absurd hm List.not_mem_nil
  | tail hb hs ih =>
    obtain ⟨v, hv⟩ := Reaches.exists_isAt hb (start_isAt ls)
    obtain ⟨l, rest, r, hdrop, hr, rfl⟩ := exists_of_step hv hs
    rcases List.mem_cons.1 hm with rfl | hm
    · exact ⟨v.index, l, rest, r, hdrop, hr, rfl, rfl, rfl⟩
    · exact ih hm

theorem Reaches.events_isPrefixOf (h : Reaches s p q) (hp : p.IsAt ls w) :
    p.events <+: q.events := by
  induction h with
  | refl => exact List.prefix_refl _
  | tail hb hs ih =>
    obtain ⟨v, hv⟩ := Reaches.exists_isAt hb hp
    obtain ⟨l, rest, r, -, -, rfl⟩ := exists_of_step hv hs
    rw [events_after]
    exact ih.trans (List.prefix_append ..)

theorem Reaches.timesRead_le (h : Reaches s p q) (hp : p.IsAt ls w) (k : ℕ) :
    p.timesRead k ≤ q.timesRead k := by
  induction h with
  | refl => exact Nat.le_refl _
  | tail hb hs ih =>
    obtain ⟨v, hv⟩ := Reaches.exists_isAt hb hp
    obtain ⟨l, rest, r, -, -, rfl⟩ := exists_of_step hv hs
    rw [timesRead_after]
    exact Nat.le_add_right_of_le ih

end Progress

namespace Job

variable {j : Job} {ts : List Token} {f : Failure}

/-- The outcome is that of the whole run. -/
theorem outcome_eq (j : Job) : j.outcome = match j.run.2 with
    | .finished => .tokens j.run.1.tokens
    | .failed f => .failed f
    | .unfinished => .unfinished := by
  unfold outcome report
  obtain ⟨p, ending⟩ := j.run
  cases ending <;> rfl

theorem outcome_eq_tokens_iff :
    j.outcome = .tokens ts ↔ j.run.2 = .finished ∧ j.run.1.tokens = ts := by
  rw [outcome_eq]
  cases j.run.2 <;> simp

theorem outcome_eq_failed_iff : j.outcome = .failed f ↔ j.run.2 = .failed f := by
  rw [outcome_eq]
  cases j.run.2 <;> simp

end Job

end RubyTokens
