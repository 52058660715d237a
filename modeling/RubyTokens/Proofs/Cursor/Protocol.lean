import RubyTokens.Proofs.Conversion.Ending
import RubyTokens.Proofs.Conversion.Failing
import RubyTokens.Proofs.Heredoc.Fence

/-! The protocol of the cursor. Between two steps nothing is pending and the cursor's records hold
what they are for: openers, and the end of a heredoc. A step asks for one move at most, which leads
to a place among the lexemes or to their end. So no look of the cursor and none of its moves is ever
a fault, on lists that no lexer reports too. -/

namespace RubyTokens

/-- The index is that of a lexeme of the kind. -/
def IsIndexOf (ls : List Lexeme) (k : LexemeKind) (i : Int) : Prop :=
  ∃ (n : ℕ) (l : Lexeme), i = n ∧ ls[n]? = some l ∧ l.hasKind k = true

namespace Cursor

/-- The cursor is between two steps. -/
structure Rests (ls : List Lexeme) (c : Cursor) : Prop where
  lexemes : c.lexemes = ls
  pending : c.pending = none
  last : c.last = c.index
  index : 0 ≤ c.index ∧ c.index ≤ ls.length
  openers : ∀ o ∈ c.openers, IsIndexOf ls .heredocBeg o
  resume : ∀ r ∈ c.resume, IsIndexOf ls .heredocEnd r

/-- The cursor has followed the request of a step. A second target would have been a fault. -/
structure Follows (ls : List Lexeme) (c : Cursor) (m : Moved) : Prop where
  fault : m.fault = none
  target : ∀ t ∈ m.cursor.pending, 0 ≤ t ∧ t ≤ ls.length
  last : c.index ≤ m.cursor.last ∧ m.cursor.last < ls.length

end Cursor

variable {s : Setting} {options : Options} {ls rest : List Lexeme} {l : Lexeme} {w : Place}
variable {p q : Progress} {stride : Stride} {i : ℕ}

theorem Stride.Fits.inOrder (h : stride.Fits l) (order : HeredocOrder) :
    (stride.inOrder order).Fits l := by
  cases order with
  | lexer => exact h
  | grammar =>
    cases stride with
    | finish => exact h
    | _ => trivial

theorem Move.stride_of (options : Options) (i : ℕ) (l : Lexeme) (rest : List Lexeme) :
    (Move.of options i l rest).stride i = Stride.of options l rest := by
  have hthrough : ∀ k : ℕ, ((i : Int) + k - i).toNat = ((0 : Int) + k - 0).toNat := by omega
  unfold Stride.of Move.of
  split
  next => split_ifs <;> rfl
  next => split <;> rfl
  next => split_ifs <;> rfl
  next => simp only [Move.stride, hthrough]
  next => rfl
  next => rfl
  next => split_ifs <;> rfl
  next => rfl
  next => rfl
  next => rfl
  next => rfl

/-! ### Places -/

namespace Place

theorem length_eq (hw : ls.drop w.index = l :: rest) : ls.length = w.index + 1 + rest.length := by
  have hlength := congrArg List.length hw
  rw [List.length_drop, List.length_cons] at hlength
  omega

/-- The place is among the lexemes, and its records are what they are for. -/
structure Sound (ls : List Lexeme) (w : Place) : Prop where
  index : w.index ≤ ls.length
  openers : ∀ o ∈ w.openers, ∃ l, ls[o]? = some l ∧ l.hasKind .heredocBeg = true
  resume : ∀ r ∈ w.resume, ∃ l, ls[r]? = some l ∧ l.hasKind .heredocEnd = true

namespace Sound

theorem rests (h : w.Sound ls) : (w.cursor ls).Rests ls where
  lexemes := rfl
  pending := rfl
  last := rfl
  index := ⟨Int.natCast_nonneg _, Int.ofNat_le.2 h.index⟩
  openers o ho := by
    obtain ⟨n, hn, rfl⟩ := List.mem_map.1 ho
    obtain ⟨l, hl, hkind⟩ := h.openers n hn
    exact ⟨n, l, rfl, hl, hkind⟩
  resume r hr := by
    obtain ⟨n, hn, rfl⟩ := Option.map_eq_some_iff.1 hr
    obtain ⟨l, hl, hkind⟩ := h.resume n hn
    exact ⟨n, l, rfl, hl, hkind⟩

theorem body?_le (h : w.Sound ls) {b : ℕ} (hb : w.body? ls = some b) : b ≤ ls.length := by
  cases hr : w.resume with
  | none => exact (body?_of_resume_none hr hb).2
  | some r =>
    rw [body?, hr] at hb
    cases hb
    obtain ⟨l, hl, -⟩ := h.resume r hr
    exact (List.getElem?_eq_some_iff.1 hl).1

/-- Whatever the stride, it leads from a sound place to a sound one. -/
theorem next (h : w.Sound ls) (hw : ls.drop w.index = l :: rest) (hfits : stride.Fits l)
    (hcount : stride.count ≤ rest.length) : (w.next ls stride).Sound ls := by
  have hl : ls[w.index]? = some l := getElem?_of_drop_cons hw
  have hlength := length_eq hw
  cases hn : w.note? ls stride with
  | none =>
    by_cases hf : stride = .finish
    · subst hf
      exact ⟨Nat.le_refl _, h.openers, h.resume⟩
    · rw [next_of_note?_eq_none hn hf]
      refine ⟨?_, h.openers, h.resume⟩
      simp only [ahead]
      omega
  | some note =>
    rcases cases_of_note? hn with ⟨b, rfl, hb, -, hnext⟩ | ⟨o, os, rfl, ho, -, hnext⟩ |
      ⟨r, rfl, hr, -, -, hnext⟩ <;> rw [hnext]
    · exact ⟨h.body?_le hb, List.forall_mem_cons.2 ⟨⟨l, hl, hfits⟩, h.openers⟩, h.resume⟩
    · obtain ⟨⟨x, hx, -⟩, hos⟩ := List.forall_mem_cons.1 (ho ▸ h.openers)
      refine ⟨(List.getElem?_eq_some_iff.1 hx).1, hos, fun r hr => ?_⟩
      cases hr
      exact ⟨l, hl, hfits⟩
    · obtain ⟨x, hx, -⟩ := h.resume r hr
      refine ⟨(List.getElem?_eq_some_iff.1 hx).1, List.forall_mem_nil _, fun r hr => ?_⟩
      cases hr

end Sound

end Place

/-! ### Steps and runs -/

namespace Progress

/-- What a lexeme asks for, the cursor can follow. -/
theorem follows_of_sound (h : w.Sound ls) (hw : ls.drop w.index = l :: rest) :
    (w.cursor ls).Follows ls
      ((w.cursor ls).apply s.order (Move.of s.options w.index l rest)) := by
  have hthrough : ∀ j, Move.of s.options w.index l rest = .consumeThrough j →
      ∃ k : ℕ, j = (w.index + k : ℕ) := fun j hj => exists_of_move_of (s := s) hj
  have hcarries := apply_carries s.order hw hthrough
  have hfits := (Stride.fits_of s.options l rest).inOrder s.order
  have hcount := Stride.count_of_le s.options l rest
  rw [Move.stride_of] at hcarries
  have hnext := h.next hw hfits (by rwa [Stride.count_inOrder])
  have hlength := Place.length_eq hw
  refine ⟨hcarries.fault, fun t ht => ?_, ?_⟩
  · have hindex := congrArg Cursor.index hcarries.advance
    rw [Cursor.advance, ht, Option.getD_some] at hindex
    dsimp only at hindex
    rw [hindex]
    exact hnext.rests.index
  · rw [hcarries.last]
    simp only [Place.cursor]
    omega

theorem Reaches.exists_sound (h : Reaches s (.start ls) q) : ∃ w, q.IsAt ls w ∧ w.Sound ls := by
  induction h with
  | refl =>
    refine ⟨_, start_isAt ls, Nat.zero_le _, List.forall_mem_nil _, fun r hr => ?_⟩
    cases hr
  | tail _ hs ih =>
    obtain ⟨w, hw, hsound⟩ := ih
    obtain ⟨l, rest, r, hdrop, hr, rfl⟩ := exists_of_step hw hs
    refine ⟨_, after_isAt, hsound.next hdrop ((Stride.fits_of_reading hr).inOrder _) ?_⟩
    rw [Stride.count_inOrder]
    exact count_le_of_reading hr

end Progress

namespace Job

/-- At a stage of a run the cursor rests. The lexeme there, if there is one, asks for one move,
whether or not tokens can be made of it; the cursor can follow, and a step fails for other reasons
only. -/
structure KeepsProtocol (j : Job) (p : Progress) : Prop where
  rests : p.cursor.Rests j.lexemes
  follows : p.cursor.isExhausted = false → ∃ l rest, p.cursor.current = .ok l ∧
    j.lexemes.drop p.cursor.index.toNat = l :: rest ∧
    (∀ y, Yield.ofLexeme j.setting.lines j.options p.state p.cursor l = .ok y →
      y.move = Move.of j.options p.cursor.index l rest) ∧
    p.cursor.Follows j.lexemes (p.cursor.apply j.order (Move.of j.options p.cursor.index l rest))
  faultless : p.cursor.isExhausted = false → ∀ fault, p.step j.setting ≠ .error (.cursor fault)

/-- A run keeps to the protocol of the cursor at all its stages, so it never fails by a fault of the
cursor. -/
theorem keepsProtocol_of_reaches {j : Job} {p : Progress}
    (h : Progress.Reaches j.setting (.start j.lexemes) p) :
    j.KeepsProtocol p ∧ ∀ fault, j.outcome ≠ .failed (.cursor fault) := by
  obtain ⟨w, hw, hsound⟩ := h.exists_sound
  have hcursor : p.cursor = w.cursor j.lexemes := hw
  refine ⟨⟨hcursor ▸ hsound.rests, fun he => ?_, fun he fault hfault => ?_⟩,
    fun fault hfailed => ?_⟩
  · have hlt : ¬ j.lexemes.length ≤ w.index := fun hle => by
      rw [(Progress.isExhausted_iff hw).2 hle] at he
      cases he
    obtain ⟨l, rest, hdrop⟩ := List.exists_cons_of_ne_nil (mt List.drop_eq_nil_iff.1 hlt)
    have hat : (w.cursor j.lexemes).At w.index (l :: rest) := ⟨rfl, hdrop⟩
    rw [hcursor]
    exact ⟨l, rest, hat.current, hdrop, fun y hy => Yield.move_ofLexeme hat hy,
      Progress.follows_of_sound (s := j.setting) hsound hdrop⟩
  · obtain ⟨l, _, -, hconcerns⟩ := Progress.exists_concerns_of_step hw he hfault
    exact hconcerns
  · obtain ⟨l, -, hconcerns⟩ := exists_concerns_of_failed hfailed
    exact hconcerns

/-- In the second heredoc of a line, where the run never comes to an end. -/
theorem keepsProtocol_of_reaches_nestedHeredoc :
    let p := (Progress.run nestedHeredoc.setting 7 (.start nestedHeredoc.lexemes)).1
    Progress.Reaches nestedHeredoc.setting (.start nestedHeredoc.lexemes) p ∧
      p.cursor.openers = [5] ∧ p.cursor.resume = some 7 ∧ nestedHeredoc.KeepsProtocol p ∧
      ∀ fault, nestedHeredoc.outcome ≠ .failed (.cursor fault) :=
  have h := Progress.reaches_run nestedHeredoc.setting 7 (.start nestedHeredoc.lexemes)
  ⟨h, by decide, by decide, keepsProtocol_of_reaches h⟩

end Job

end RubyTokens
