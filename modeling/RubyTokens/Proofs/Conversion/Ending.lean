import Mathlib.Tactic.Ring
import Mathlib.Tactic.Linarith
import RubyTokens.Proofs.Conversion.Circle

/-! When a run ends. A bound on the steps that are left falls with each step, although the cursor
goes back at each heredoc's end: a heredoc that was closed is not open any more, and a line that was
ended lies before all that comes. The bound is lost in one case only, where two openers one behind
the other are sent to the same body; then the run goes round and round. -/

namespace RubyTokens

/-- Two openers, with no heredoc's end and no line's end between them, were sent to the same body.
-/
def Trapped (es : List Event) : Prop :=
  ∃ h h' body : Int, [Event.moved (.opened h body), .moved (.opened h' body)] <:+: es

theorem Trapped.mono {es es' : List Event} (h : Trapped es) (hp : es <+: es') : Trapped es' := by
  obtain ⟨a, b, body, hin⟩ := h
  exact ⟨a, b, body, hin.trans hp.isInfix⟩

/-- One more event springs the trap only if it is the second of the two openers. -/
theorem trapped_concat_iff {es : List Event} {e : Event} :
    Trapped (es ++ [e]) ↔ Trapped es ∨ ∃ h h' body : Int,
      es.getLast? = some (.moved (.opened h body)) ∧ e = .moved (.opened h' body) := by
  constructor
  · rintro ⟨h, h', body, hin⟩
    rcases List.infix_concat_iff.1 hin with hsuffix | hin
    · refine .inr ⟨h, h', body, ?_⟩
      obtain ⟨front, hfront⟩ := hsuffix
      rw [← List.singleton_append (l := [Event.moved (.opened h' body)]),
        ← List.append_assoc] at hfront
      obtain ⟨rfl, he⟩ := List.append_inj' hfront rfl
      exact ⟨List.getLast?_concat .., (List.cons.inj he).1.symm⟩
    · exact .inl ⟨h, h', body, hin⟩
  · rintro (h | ⟨h, h', body, hlast, rfl⟩)
    · exact h.mono (List.prefix_append ..)
    · obtain ⟨front, rfl⟩ := List.getLast?_eq_some_iff.1 hlast
      exact ⟨h, h', body, front, [], by simp⟩

/-! ### A bound on the steps that are left -/

/-- The sum of the numbers up to one. -/
def triangle : ℕ → ℕ
  | 0 => 0
  | m + 1 => triangle m + (m + 1)

theorem two_mul_triangle (m : ℕ) : 2 * triangle m = m * (m + 1) := by
  induction m with
  | zero => rfl
  | succ m ih => rw [triangle, Nat.mul_add, ih]; ring

/-- The steps for heredocs that are open, and for the lines that begin behind index `base`. -/
def reserve (n base openers : ℕ) : ℕ :=
  (2 * n + 2) * openers + (2 * n + 3) * triangle (n - (base + 1))

theorem reserve_succ (n base openers : ℕ) :
    reserve n base (openers + 1) = reserve n base openers + (2 * n + 2) := by
  unfold reserve
  ring

/-- The lines behind a line that is ended have enough for one of them. -/
theorem reserve_base (n base r : ℕ) (h : base + 1 ≤ r) :
    (2 * n + 3) * (n - (r + 1)) + reserve n (base + 1) 0 ≤ reserve n base 0 := by
  unfold reserve
  rcases Nat.lt_or_ge (base + 1) n with hn | hn
  · obtain ⟨m, hm⟩ : ∃ m, n - (base + 1) = m + 1 := ⟨n - (base + 2), by omega⟩
    have hm' : n - (base + 1 + 1) = m := by omega
    have hle : n - (r + 1) ≤ m + 1 := by omega
    rw [hm, hm', triangle, Nat.mul_add (2 * n + 3)]
    have := Nat.mul_le_mul_left (2 * n + 3) hle
    omega
  · have hr : n - (r + 1) = 0 := by omega
    have hb : n - (base + 1 + 1) = 0 := by omega
    rw [hr, hb, Nat.mul_zero, triangle]
    omega

/-- How a run stands after its last event, with a bound on the steps that are left. No heredoc was
closed since the last line was ended; or one was closed last, and the line of its opener is being
read; or a heredoc has been opened since then, to which a way leads that does not move the cursor.
-/
inductive Phase (s : Setting) (ls : List Lexeme) : Option Event → Place → ℕ → Prop
  | fresh {e : Option Event} {i a : ℕ} {openers : List ℕ} (hi : a ≤ i)
      (ho : ∀ o ∈ openers, a ≤ o ∧ o < i)
      (he : ∀ h b : Int, e = some (.moved (.opened h b)) → b ≤ i) :
      Phase s ls e ⟨i, openers, none⟩
        ((2 * ls.length + 3) * (ls.length - i) + reserve ls.length a openers.length)
  | closed {t b : Int} {i r a : ℕ} {openers : List ℕ} (order : s.order = .lexer)
      (hi : a + 1 ≤ i) (hr : a + 1 ≤ r) (hn : r < ls.length) (ho : ∀ o ∈ openers, a ≤ o) :
      Phase s ls (some (.moved (.closed t b))) ⟨i, openers, some r⟩
        (ls.length - i + (ls.length - r) + reserve ls.length a openers.length)
  | reopened {h i r a : ℕ} {openers : List ℕ} (order : s.order = .lexer) (hi : a + 1 ≤ i)
      (hh : a + 1 ≤ h) (hn : h < ls.length) (ho : ∀ o ∈ openers, a ≤ o)
      (hlead : i < ls.length → Leads s ls (r + 1) i) :
      Phase s ls (some (.moved (.opened h (r + 1 : ℕ)))) ⟨i, h :: openers, some r⟩
        (ls.length - h + (ls.length - i) + reserve ls.length a openers.length)

namespace Phase

variable {s : Setting} {ls : List Lexeme} {e : Option Event} {w : Place} {m : ℕ}

/-- A step that does not move the cursor leads closer to the end of the lexemes. -/
theorem onward (h : Phase s ls e w m) (hw : w.index < ls.length) {j : ℕ} (hj : w.index < j)
    (hpass : w.resume ≠ none → w.openers ≠ [] → j < ls.length → Passes s ls w.index j) :
    ∃ m' < m, Phase s ls e { w with index := j } m' := by
  cases h with
  | @fresh e i a openers hi ho he =>
    dsimp only at hw hj
    refine ⟨_, ?_, fresh (hi.trans hj.le) (fun o hm => ⟨(ho o hm).1, (ho o hm).2.trans hj⟩) ?_⟩
    · have hlt : ls.length - j < ls.length - i := by omega
      exact Nat.add_lt_add_right (Nat.mul_lt_mul_of_pos_left hlt (Nat.succ_pos _)) _
    · intro h b heq
      have := he h b heq
      omega
  | @closed t b i r a openers order hi hr hn ho =>
    dsimp only at hw hj
    refine ⟨_, ?_, closed order (hi.trans hj.le) hr hn ho⟩
    exact Nat.add_lt_add_right (by omega) _
  | @reopened h i r a openers order hi hh hn ho hlead =>
    dsimp only at hw hj
    refine ⟨_, ?_, reopened order (hi.trans hj.le) hh hn ho fun hlt => ?_⟩
    · exact Nat.add_lt_add_right (by omega) _
    · exact (hlead hw).tail (hpass (Option.some_ne_none r) (List.cons_ne_nil h openers) hlt)

/-- That an opener stays in place does not matter. -/
theorem kept (h : Phase s ls e w m) (hr : w.resume = none) (line column : Int) :
    Phase s ls (some (.keptInPlace line column)) w m := by
  cases h with
  | fresh hi ho he => exact fresh hi ho fun _ _ h => by cases h
  | closed => cases hr
  | reopened => cases hr

/-- A heredoc that is closed is paid for since it was opened. -/
theorem closeHeredoc (h : Phase s ls e w m) (hw : w.index < ls.length)
    (order : s.order = .lexer) {o : ℕ} {openers : List ℕ} (ho : w.openers = o :: openers)
    (b : Int) :
    ∃ m' < m, Phase s ls (some (.moved (.closed w.index b))) ⟨o + 1, openers, some w.index⟩ m' := by
  cases h with
  | @fresh e i a os hi hos he =>
    dsimp only at hw ho ⊢
    subst ho
    have hmem := hos o List.mem_cons_self
    refine ⟨_, ?_, closed order (by omega) (by omega) hw fun x hx => (hos x (.tail _ hx)).1⟩
    -- The reserve of the opener pays for reading the line again.
    have hle := Nat.le_mul_of_pos_left (ls.length - i) (Nat.succ_pos (2 * ls.length + 2))
    rw [List.length_cons, reserve_succ]
    omega
  | @closed t c i r a os _ hi hr hn hos =>
    dsimp only at hw ho ⊢
    subst ho
    have hmem := hos o List.mem_cons_self
    refine ⟨_, ?_, closed order (by omega) hi hw fun x hx => hos x (.tail _ hx)⟩
    rw [List.length_cons, reserve_succ]
    omega
  | @reopened h i r a os _ hi hh hn hos hlead =>
    dsimp only at hw ho ⊢
    obtain ⟨rfl, rfl⟩ := List.cons.inj ho
    exact ⟨_, by omega, closed order (by omega) hi hw hos⟩

/-- A line that is ended lies behind. -/
theorem endLine (h : Phase s ls e w m) (hw : w.index < ls.length) {r : ℕ}
    (hr : w.resume = some r) (ho : w.openers = []) (t b : Int) :
    ∃ m' < m, Phase s ls (some (.moved (.resumed t b))) ⟨r + 1, [], none⟩ m' := by
  cases h with
  | fresh => cases hr
  | @closed t c i r' a os _ hi hr' hn hos =>
    dsimp only at hw ho
    cases hr
    subst ho
    refine ⟨_, ?_, fresh (a := a + 1) (by omega) (List.forall_mem_nil _) fun _ _ h => by cases h⟩
    have := reserve_base ls.length a r hr'
    rw [List.length_nil]
    omega
  | reopened => cases ho

/-- An opener that is sent to a body is paid for, or the opener before it was sent to the same body,
and the run goes round and round. -/
theorem openHeredoc (h : Phase s ls e w m) (hw : w.index < ls.length) (order : s.order = .lexer)
    (hopens : Opens s ls w.index) {b : ℕ} (hb : w.body? ls = some b) :
    (∃ m' < m,
      Phase s ls (some (.moved (.opened w.index b))) ⟨b, w.index :: w.openers, w.resume⟩ m' ∧
      ∀ h : Int, e ≠ some (.moved (.opened h b))) ∨
    ∃ h : Int, e = some (.moved (.opened h b)) ∧
      ∃ r o, Circles s ls ⟨b, w.index :: w.openers, w.resume⟩ r o := by
  cases h with
  | @fresh e i a openers hi ho he =>
    obtain ⟨hlow, hhigh⟩ := Place.body?_of_resume_none rfl hb
    dsimp only at hw hlow ⊢
    -- The body lies two indices ahead at least, which pays for the opener's reserve.
    refine .inl ⟨_, ?_, fresh (a := a) (by omega) ?_ ?_, ?_⟩
    · have hle := Nat.mul_le_mul_left (2 * ls.length + 3)
        (show ls.length - b + 2 ≤ ls.length - i by omega)
      rw [Nat.mul_add] at hle
      rw [List.length_cons, reserve_succ]
      omega
    · intro o hm
      rcases List.mem_cons.1 hm with rfl | hm
      · exact ⟨hi, by omega⟩
      · have := ho o hm
        omega
    · intro h c heq
      cases heq
      exact le_rfl
    · intro h heq
      have := he h b heq
      omega
  | @closed t c i r a openers _ hi hr hn ho =>
    cases hb
    refine .inl ⟨_, ?_, reopened (a := a) order (by omega) hi hw ho fun _ => .refl,
      fun _ h => by cases h⟩
    exact Nat.add_lt_add_right (by dsimp only at hw ⊢; omega) _
  | @reopened h i r a openers _ hi hh hn ho hlead =>
    cases hb
    exact .inr ⟨h, rfl, r, i, order, List.cons_ne_nil _ _, rfl, hlead hw, hlead hw, hopens⟩

theorem order_of_resume (h : Phase s ls e w m) (hr : w.resume ≠ none) : s.order = .lexer := by
  cases h with
  | fresh => exact absurd rfl hr
  | closed order => exact order
  | reopened order => exact order

variable {p q : Progress} {l : Lexeme} {rest : List Lexeme} {r : Reading}

/-- A step of which nothing is noted comes closer to the end. -/
theorem after_of_note?_eq_none (h : Phase s ls p.events.getLast? w m)
    (hw : ls.drop w.index = l :: rest)
    (hr : reading s.lines s.options p.state (l :: rest) = .ok r)
    (hn : w.note? ls (r.stride.inOrder s.order) = none) :
    ∃ m' < m, Phase s ls (p.after s ls w l rest r).events.getLast?
        (w.next ls (r.stride.inOrder s.order)) m' ∧
      (Trapped (p.after s ls w l rest r).events → Trapped p.events) := by
  have hlt := List.length_lt_of_drop_ne_nil (hw ▸ List.cons_ne_nil l rest)
  obtain ⟨hnext, hindex⟩ := Place.lt_index_next_of_note?_eq_none hn hlt
  have hpass : w.resume ≠ none → w.openers ≠ [] →
      (w.next ls (r.stride.inOrder s.order)).index < ls.length →
      Passes s ls w.index (w.next ls (r.stride.inOrder s.order)).index := by
    intro hres hopen hin
    rw [h.order_of_resume hres, Stride.inOrder] at hn hin ⊢
    exact .of_note?_eq_none (hw ▸ hr) hn hres hopen hin
  obtain ⟨m', hm, hphase⟩ := h.onward hlt hindex hpass
  rw [← hnext] at hphase
  refine ⟨m', hm, ?_⟩
  rw [Progress.events_after, Place.events, hn]
  dsimp only
  split_ifs with hopen
  · rw [List.getLast?_concat, trapped_concat_iff]
    refine ⟨hphase.kept ?_ _ _, fun ht => ht.elim id ?_⟩
    · rw [hnext]
      by_contra hres
      obtain ⟨o, ho⟩ := Option.ne_none_iff_exists'.1 hres
      rw [h.order_of_resume hres, Stride.inOrder, hopen, Place.note?, Place.body?, ho] at hn
      cases hn
    · rintro ⟨_, _, _, _, heq⟩
      cases heq
  · rw [List.append_nil]
    exact ⟨hphase, id⟩

/-- A step of which a move is noted comes closer to the end, or springs the trap. -/
theorem after_of_note? (h : Phase s ls p.events.getLast? w m) (hw : ls.drop w.index = l :: rest)
    (hr : reading s.lines s.options p.state (l :: rest) = .ok r) {note : Cursor.Note}
    (hn : w.note? ls (r.stride.inOrder s.order) = some note) :
    (∃ m' < m, Phase s ls (p.after s ls w l rest r).events.getLast?
        (w.next ls (r.stride.inOrder s.order)) m' ∧
      (Trapped (p.after s ls w l rest r).events → Trapped p.events)) ∨
    (Trapped (p.after s ls w l rest r).events ∧
      ∃ t o, Circles s ls (w.next ls (r.stride.inOrder s.order)) t o) := by
  have hlt := List.length_lt_of_drop_ne_nil (hw ▸ List.cons_ne_nil l rest)
  have order : s.order = .lexer := by
    cases ho : s.order with
    | lexer => rfl
    | grammar => rw [ho, Place.note?_inOrder_grammar] at hn; cases hn
  have hevents : (p.after s ls w l rest r).events = p.events ++ [.moved note] := by
    rw [Progress.events_after, Place.events, hn]
  rw [hevents, List.getLast?_concat, trapped_concat_iff]
  rw [order, Stride.inOrder] at hn ⊢
  rcases Place.cases_of_note? hn with ⟨b, hstride, hb, rfl, hnext⟩ | ⟨o, os, -, ho, rfl, hnext⟩ |
    ⟨t, -, ht, ho, rfl, hnext⟩
  · obtain ⟨ts, hbeg⟩ := exists_reading_of_state hr .beg
    rw [← hw] at hbeg
    rw [hnext]
    rcases h.openHeredoc hlt order ⟨_, hbeg, hstride⟩ hb with
      ⟨m', hm, hphase, hne⟩ | ⟨o, ho, hcircle⟩
    · refine .inl ⟨m', hm, hphase, fun ht => ht.elim id ?_⟩
      rintro ⟨o, o', body, hlast, heq⟩
      cases heq
      exact absurd hlast (hne o)
    · exact .inr ⟨.inr ⟨o, w.index, b, ho, rfl⟩, hcircle⟩
  · obtain ⟨m', hm, hphase⟩ := h.closeHeredoc hlt order ho (o + 1)
    rw [hnext]
    refine .inl ⟨m', hm, hphase, fun ht => ht.elim id ?_⟩
    rintro ⟨_, _, _, _, heq⟩
    cases heq
  · obtain ⟨m', hm, hphase⟩ := h.endLine hlt ht ho w.index (t + 1)
    rw [hnext]
    refine .inl ⟨m', hm, hphase, fun ht => ht.elim id ?_⟩
    rintro ⟨_, _, _, _, heq⟩
    cases heq

/-- A step comes closer to the end, or springs the trap. -/
theorem step (h : Phase s ls p.events.getLast? w m) (hp : p.IsAt ls w) (hs : p.step s = .ok q) :
    ∃ v, q.IsAt ls v ∧
      ((∃ m' < m, Phase s ls q.events.getLast? v m' ∧ (Trapped q.events → Trapped p.events)) ∨
        (Trapped q.events ∧ ∃ r o, Circles s ls v r o)) := by
  obtain ⟨l, rest, r, hw, hr, rfl⟩ := Progress.exists_of_step hp hs
  refine ⟨_, Progress.after_isAt, ?_⟩
  cases hn : w.note? ls (r.stride.inOrder s.order) with
  | none => exact .inl (h.after_of_note?_eq_none hw hr hn)
  | some note => exact h.after_of_note? hw hr hn

end Phase

/-! ### The end of a run -/

namespace Progress

variable {s : Setting} {ls : List Lexeme} {w : Place} {m : ℕ} {p : Progress}

/-- With more steps than are left at most, a run comes to its end, unless it is trapped. -/
theorem run_of_phase {fuel : ℕ} (hm : m < fuel) (hp : p.IsAt ls w)
    (h : Phase s ls p.events.getLast? w m) (ht : ¬ Trapped p.events) :
    ((run s fuel p).2 ≠ .unfinished ∧ ¬ Trapped (run s fuel p).1.events) ∨
      (Trapped (run s fuel p).1.events ∧ ¬ Ends s p) := by
  induction fuel generalizing p w m with
  | zero => exact absurd hm (Nat.not_lt_zero m)
  | succ fuel ih =>
    by_cases he : p.cursor.isExhausted = true
    · rw [run_of_isExhausted he]
      exact .inl ⟨by simp, ht⟩
    have he : p.cursor.isExhausted = false := by simpa using he
    cases hs : p.step s with
    | error failure =>
      rw [run_succ_of_failure he hs]
      exact .inl ⟨by simp, ht⟩
    | ok q =>
      rw [run_succ_of_step he hs, (Reaches.ends_iff (.single hs) : Ends s p ↔ Ends s q)]
      obtain ⟨v, hv, ⟨m', hm', hphase, htrap⟩ | ⟨htrap, r, o, hcircle⟩⟩ := h.step hp hs
      · exact ih (by omega) hv hphase fun h => ht (htrap h)
      · exact .inr ⟨htrap.mono ((reaches_run s fuel q).events_isPrefixOf hv), hcircle.not_ends hv⟩

end Progress

/-- The limit is more than a run makes steps before it ends or is trapped. -/
theorem lt_stepLimit (n : ℕ) : (2 * n + 3) * (n - 0) + reserve n 0 0 < stepLimit n := by
  have htriangle : triangle (n - (0 + 1)) + n = triangle n := by
    cases n with
    | zero => rfl
    | succ n => rfl
  have hsum : 2 * ((2 * n + 3) * (n - 0) + reserve n 0 0) = (2 * n + 3) * (n * (n + 1)) := by
    rw [← two_mul_triangle, ← htriangle, reserve]
    simp only [Nat.sub_zero]
    ring
  unfold stepLimit
  nlinarith [hsum]

namespace Job

/-- The steps that a run is given are enough for it to end or to be trapped. -/
theorem run_or_trapped (j : Job) : (j.run.2 ≠ .unfinished ∧ ¬ Trapped j.run.1.events) ∨
    (Trapped j.run.1.events ∧ ¬ Progress.Ends j.setting (.start j.lexemes)) := by
  have hphase : Phase j.setting j.lexemes (Progress.start j.lexemes).events.getLast?
      ⟨0, [], none⟩ _ :=
    .fresh (a := 0) le_rfl (List.forall_mem_nil _) (fun _ _ h => by cases h)
  have hstart : ¬ Trapped (Progress.start j.lexemes).events := by
    rintro ⟨_, _, _, hin⟩
    exact absurd (List.infix_nil.1 hin) (List.cons_ne_nil _ _)
  exact Progress.run_of_phase (lt_stepLimit _) (Progress.start_isAt _) hphase hstart

/-- A run that ends, ends within the steps that it is given. -/
theorem run_eq_of_ends {j : Job} {fuel : ℕ}
    (h : (Progress.run j.setting fuel (.start j.lexemes)).2 ≠ .unfinished) :
    j.run = Progress.run j.setting fuel (.start j.lexemes) := by
  rcases j.run_or_trapped with ⟨hend, -⟩ | ⟨-, hend⟩
  · exact Progress.Reaches.run_eq .refl hend h
  · exact absurd ⟨fuel, h⟩ hend

/-- A run comes to an end if, and only if, no two openers one behind the other were sent to the same
body within the steps that it is given. -/
theorem ends_iff_not_trapped (j : Job) :
    Progress.Ends j.setting (.start j.lexemes) ↔ ¬ Trapped j.run.1.events := by
  rcases j.run_or_trapped with ⟨hend, htrap⟩ | ⟨htrap, hend⟩
  · exact ⟨fun _ => htrap, fun _ => ⟨_, hend⟩⟩
  · exact ⟨fun h => absurd h hend, fun h => absurd htrap h⟩

end Job

/-- A heredoc within an interpolation in the second heredoc of a line. -/
def nestedHeredoc : Job where
  source := ⟨"nested.rb", "p <<A, <<B\nA\n#\x7b<<C\nC\n\x7d\nB\n"⟩
  lexemes := [
    ⟨1, 0, LexemeKind.identifier.name, "p", .cmdArg⟩, ⟨1, 1, LexemeKind.space.name, " ", .cmdArg⟩,
    ⟨1, 2, LexemeKind.heredocBeg.name, "<<A", .ended⟩, ⟨1, 5, LexemeKind.comma.name, ",", .beg⟩,
    ⟨1, 6, LexemeKind.space.name, " ", .beg⟩, ⟨1, 7, LexemeKind.heredocBeg.name, "<<B", .ended⟩,
    ⟨1, 10, LexemeKind.newline.name, "\n", .beg⟩, ⟨2, 0, LexemeKind.heredocEnd.name, "A\n", .beg⟩,
    ⟨3, 0, LexemeKind.embexprBeg.name, "#\x7b", .beg⟩,
    ⟨3, 2, LexemeKind.heredocBeg.name, "<<C", .ended⟩,
    ⟨3, 5, LexemeKind.newline.name, "\n", .beg⟩, ⟨4, 0, LexemeKind.heredocEnd.name, "C\n", .beg⟩,
    ⟨5, 0, LexemeKind.embexprEnd.name, "\x7d", .ended⟩,
    ⟨5, 1, LexemeKind.tstringContent.name, "\n", .beg⟩,
    ⟨6, 0, LexemeKind.heredocEnd.name, "B\n", .beg⟩]

/-- The inner opener is sent to the body it stands in. -/
theorem not_ends_nestedHeredoc :
    ¬ Progress.Ends nestedHeredoc.setting (.start nestedHeredoc.lexemes) := by
  have hreach := Progress.reaches_run nestedHeredoc.setting 7 (.start nestedHeredoc.lexemes)
  have hat : Progress.IsAt nestedHeredoc.lexemes ⟨8, [5], some 7⟩
      (Progress.run nestedHeredoc.setting 7 (.start nestedHeredoc.lexemes)).1 := by
    unfold Progress.IsAt
    decide
  have hpass : Passes nestedHeredoc.setting nestedHeredoc.lexemes 8 9 :=
    ⟨⟨[⟨.stringCodeBeg, .text "#\x7b", Span.sized 13 2⟩], .past 0⟩, by decide, .inr rfl, rfl⟩
  have hopens : Opens nestedHeredoc.setting nestedHeredoc.lexemes 9 :=
    ⟨⟨[⟨.stringBeg, .text "<<", Span.sized 15 3⟩], .openHeredoc⟩, by decide, rfl⟩
  rw [hreach.ends_iff]
  exact Circles.not_ends ⟨rfl, by decide, rfl, .single hpass, .single hpass, hopens⟩ hat

end RubyTokens
