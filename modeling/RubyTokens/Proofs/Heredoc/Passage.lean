import RubyTokens.Proofs.Conversion.Walk
import RubyTokens.Proofs.Heredoc.Fence

/-! Passages. What a run makes of lexemes that it reads in a row is a function of the lexer's state
before them: a failure, or tokens and the state behind. The function does not know where the lexemes
stand, so runs that read the same lists from different places, and go from one to the next by
different moves, are compared by their passages. -/

namespace RubyTokens

/-- From the state before some lexemes, their tokens and the state behind them, or a failure. -/
abbrev Passage := State → Except Failure (List Token × State)

namespace Passage

def nothing : Passage := fun state => .ok ([], state)

/-- One passage behind the other. -/
def andThen (P Q : Passage) : Passage := fun state =>
  match P state with
  | .error f => .error f
  | .ok out => (Q out.2).map fun out' => (out.1 ++ out'.1, out'.2)

/-- The step at the first lexeme of a list. -/
def first (lines : LineTable) (options : Options) (l : Lexeme) (rest : List Lexeme) : Passage :=
  fun state => (reading lines options state (l :: rest)).map fun r =>
    (r.tokens, ((l :: rest).getD r.stride.count l).stateAfter)

end Passage

/-- The passage through a list, from its first lexeme behind its last one. -/
def stretch (lines : LineTable) (options : Options) : List Lexeme → Passage
  | [] => .nothing
  | l :: rest =>
    (Passage.first lines options l rest).andThen
      (stretch lines options (rest.drop (Stride.of options l rest).count))
termination_by ls => ls.length

namespace Progress

/-- What steps add to a run: tokens, events, and the indices that they read. -/
structure Adds (p q : Progress) (tokens : List Token) (indices : List ℕ) (events : List Event) :
    Prop where
  tokens : q.tokens = p.tokens ++ tokens
  events : q.events = p.events ++ events
  timesRead : ∀ k, q.timesRead k = p.timesRead k + indices.count k

variable {p q r : Progress} {ts ts' : List Token} {is is' : List ℕ} {es es' : List Event}

theorem Adds.refl (p : Progress) : p.Adds p [] [] [] :=
  ⟨(List.append_nil _).symm, (List.append_nil _).symm, fun _ => rfl⟩

theorem Adds.trans (h : p.Adds q ts is es) (h' : q.Adds r ts' is' es') :
    p.Adds r (ts ++ ts') (is ++ is') (es ++ es') where
  tokens := by rw [h'.tokens, h.tokens, List.append_assoc]
  events := by rw [h'.events, h.events, List.append_assoc]
  timesRead k := by rw [h'.timesRead, h.timesRead, List.count_append, Nat.add_assoc]

/-- The run comes to a result of a passage: it fails so, or it comes to the place `v`. -/
def ComesTo (s : Setting) (ls : List Lexeme) (p : Progress) (v : Place) (is : List ℕ)
    (es : List Event) : Except Failure (List Token × State) → Prop
  | .error f => ∃ q, Reaches s p q ∧ q.cursor.isExhausted = false ∧ q.step s = .error f
  | .ok out => ∃ q, Reaches s p q ∧ q.IsAt ls v ∧ q.state = out.2 ∧ p.Adds q out.1 is es

end Progress

/-- From the place `w` a run makes a passage, and comes to the place `v` by it. -/
def Performs (s : Setting) (ls : List Lexeme) (P : Passage) (w v : Place) (is : List ℕ)
    (es : List Event) : Prop :=
  ∀ p : Progress, p.IsAt ls w → p.ComesTo s ls v is es (P p.state)

section

variable {s : Setting} {ls : List Lexeme} {P Q : Passage} {u v w : Place} {is is' : List ℕ}
variable {es es' : List Event}

theorem performs_nothing (w : Place) : Performs s ls .nothing w w [] [] := fun p hp =>
  ⟨p, .refl, hp, rfl, .refl p⟩

theorem Performs.andThen (h : Performs s ls P w v is es) (h' : Performs s ls Q v u is' es') :
    Performs s ls (P.andThen Q) w u (is ++ is') (es ++ es') := by
  intro p hp
  have hfirst := h p hp
  unfold Passage.andThen
  cases hP : P p.state with
  | error f => rw [hP] at hfirst; exact hfirst
  | ok out =>
    rw [hP] at hfirst
    obtain ⟨q, hreach, hq, hstate, hadds⟩ := hfirst
    have hsecond := h' q hq
    rw [hstate] at hsecond
    dsimp only
    cases hQ : Q out.2 with
    | error f =>
      rw [hQ] at hsecond
      obtain ⟨r, hreach', hr⟩ := hsecond
      exact ⟨r, hreach.trans hreach', hr⟩
    | ok out' =>
      rw [hQ] at hsecond
      obtain ⟨r, hreach', hr, hstate', hadds'⟩ := hsecond
      exact ⟨r, hreach.trans hreach', hr, hstate', hadds.trans hadds'⟩

/-- A run that comes to its end in success makes the passage. -/
theorem Performs.exists_of_isExhausted {p q : Progress} (h : Performs s ls P w v is es)
    (hp : p.IsAt ls w) (hreach : Progress.Reaches s p q) (hq : q.cursor.isExhausted = true) :
    ∃ r, Progress.Reaches s r q ∧ r.IsAt ls v ∧ ∃ ts, p.Adds r ts is es := by
  have hpass := h p hp
  cases hP : P p.state with
  | error f =>
    rw [hP] at hpass
    obtain ⟨r, hr, hexhausted, hfail⟩ := hpass
    rcases Relation.ReflTransGen.cases_head (hreach.of_isExhausted hq hr) with rfl | ⟨t, ht, -⟩
    · rw [hq] at hexhausted
      cases hexhausted
    · rw [hfail] at ht
      cases ht
  | ok out =>
    rw [hP] at hpass
    obtain ⟨r, hr, hat, -, hadds⟩ := hpass
    exact ⟨r, hreach.of_isExhausted hq hr, hat, _, hadds⟩

/-- One step makes the passage of its lexeme, as far as that sees what stands in front of a fence.
-/
theorem performs_first {l : Lexeme} {xs post : List Lexeme}
    (hw : ls.drop w.index = l :: (xs ++ post)) (hsee : l.SeesAlike (xs ++ post) xs) :
    Performs s ls (.first s.lines s.options l xs) w
      (w.next ls ((Stride.of s.options l xs).inOrder s.order))
      (List.range' w.index ((Stride.of s.options l xs).count + 1))
      (w.events s.order ls l (Stride.of s.options l xs)) := by
  intro p hp
  have hstep := Progress.step_eq (s := s) hp hw
  rw [reading_congr hsee] at hstep
  unfold Passage.first
  cases hr : reading s.lines s.options p.state (l :: xs) with
  | error f =>
    rw [hr] at hstep
    refine ⟨p, .refl, ?_, hstep⟩
    have hlt : w.index < ls.length := List.length_lt_of_drop_ne_nil (hw ▸ List.cons_ne_nil _ _)
    rw [← Bool.not_eq_true, Progress.isExhausted_iff hp]
    exact Nat.not_le_of_lt hlt
  | ok r =>
    rw [hr] at hstep
    have hstride := stride_of_reading hr
    have hcount : r.stride.count < (l :: xs).length := Nat.lt_succ_of_le (count_le_of_reading hr)
    rw [← hstride]
    refine ⟨_, .single hstep, Progress.after_isAt, ?_, Progress.tokens_after, Progress.events_after,
      Progress.timesRead_after⟩
    change ((l :: (xs ++ post)).getD r.stride.count l).stateAfter = _
    rw [← List.cons_append, List.getD_eq_getElem?_getD, List.getElem?_append_left hcount,
      ← List.getD_eq_getElem?_getD]

/-! ### Segments, bodies and fences -/

/-- A lexeme that is passed, or ends a line that does not take the cursor elsewhere. -/
theorem Place.next_of_passing {order : HeredocOrder} (l : Lexeme) {stride : Stride}
    (h : (stride = .endLine ∧ (order = .grammar ∨ w.resume = none ∨ w.openers ≠ [])) ∨
      stride = .past stride.count) :
    w.next ls (stride.inOrder order) = w.ahead stride.count ∧ w.events order ls l stride = [] := by
  rcases h with ⟨rfl, hline⟩ | h
  · obtain ⟨i, openers, resume⟩ := w
    cases order with
    | grammar => exact ⟨rfl, rfl⟩
    | lexer =>
      cases resume with
      | none => exact ⟨rfl, rfl⟩
      | some r =>
        cases openers with
        | nil => rcases hline with h | h | h <;> exact absurd h (by simp)
        | cons o openers => exact ⟨rfl, rfl⟩
  · rw [h]
    cases order <;> exact ⟨rfl, rfl⟩

/-- A list is read to its end, unless a line that it ends takes the cursor elsewhere. -/
theorem performs_stretch {xs post : List Lexeme} (hx : Unmarked xs)
    (hpost : Fenced s.options xs post) (hw : ls.drop w.index = xs ++ post)
    (hline : s.order = .grammar ∨ w.resume = none ∨ w.openers ≠ [] ∨ ∀ l ∈ xs, l.endsLine = false) :
    Performs s ls (stretch s.lines s.options xs) w { w with index := w.index + xs.length }
      (List.range' w.index xs.length) [] := by
  -- A fold may skip lexemes, so the induction is the recursion of `stretch`, not that of the list.
  fun_induction stretch s.lines s.options xs generalizing w with
  | case1 => exact performs_nothing w
  | case2 l rest ih =>
    have hcount := Stride.count_of_le s.options l rest
    have hfirst := performs_first (s := s) hw (.of_fenced hpost)
    have hpass : (Stride.of s.options l rest = .endLine ∧
        (s.order = .grammar ∨ w.resume = none ∨ w.openers ≠ [])) ∨
        Stride.of s.options l rest = .past (Stride.of s.options l rest).count := by
      refine (Stride.of_unmarked hx List.mem_cons_self rest).imp_left
        (And.imp_right fun hends => ?_)
      rcases hline with h | h | h | h
      · exact .inl h
      · exact .inr (.inl h)
      · exact .inr (.inr h)
      · rw [h l List.mem_cons_self] at hends
        cases hends
    obtain ⟨hnext, hevents⟩ := Place.next_of_passing l hpass
    rw [hnext, hevents] at hfirst
    have hfenced := hpost.drop
    generalize (Stride.of s.options l rest).count = k at *
    have hsuffix : rest.drop k <:+ l :: rest :=
      (List.drop_suffix k rest).trans (List.suffix_cons l rest)
    have hdrop : ls.drop (w.ahead k).index = rest.drop k ++ post := by
      have hindex : (w.ahead k).index = w.index + (k + 1) := by simp only [Place.ahead]; omega
      rw [hindex, ← List.drop_drop, hw, List.cons_append, List.drop_succ_cons,
        List.drop_append_of_le_length hcount]
    have hrest := ih (fun x hm => hx x (hsuffix.subset hm)) hfenced hdrop
      (hline.imp_right <| Or.imp_right <| Or.imp_right fun h x hm => h x (hsuffix.subset hm))
    have hboth := hfirst.andThen hrest
    have hplace : { w.ahead k with index := (w.ahead k).index + (rest.drop k).length } =
        { w with index := w.index + (l :: rest).length } := by
      simp only [Place.ahead, List.length_drop, List.length_cons, Place.mk.injEq, and_true]
      omega
    have hrange : List.range' w.index (k + 1) ++
        List.range' (w.ahead k).index (rest.drop k).length =
          List.range' w.index (l :: rest).length := by
      have hindex : (w.ahead k).index = w.index + (k + 1) := by simp only [Place.ahead]; omega
      have hlength : (l :: rest).length = k + 1 + (rest.drop k).length := by
        rw [List.length_drop, List.length_cons]; omega
      rw [hindex, hlength, List.range'_append_1]
    rw [hplace, hrange] at hboth
    exact hboth

/-- A fence is one step, whatever is behind it. -/
theorem performs_fence {f : Lexeme} {post : List Lexeme} (hf : f.isFence = true)
    (hw : ls.drop w.index = f :: post) {stride : Stride} (hs : Stride.of s.options f [] = stride) :
    Performs s ls (stretch s.lines s.options [f]) w (w.next ls (stride.inOrder s.order)) [w.index]
      (w.events s.order ls f stride) := by
  subst hs
  have hfirst := performs_first (s := s) (show ls.drop w.index = f :: ([] ++ post) from hw)
    (.of_isFence hf _ _)
  have hcount : (Stride.of s.options f []).count = 0 :=
    Nat.le_zero.1 (Stride.count_of_le s.options f [])
  have hboth := hfirst.andThen (performs_nothing (s := s) _)
  rw [hcount, List.append_nil, List.append_nil] at hboth
  rw [stretch, hcount, List.drop_nil, stretch]
  exact hboth

end

end RubyTokens
