import RubyTokens.Proofs.Cursor.Protocol

/-! The state in which a lexeme is classified. A run keeps the state after the lexeme that was read
last. That is the lexeme in front, unless the cursor has jumped: from a heredoc's opener to its
body, from the end of the body behind the opener, or from the end of a line past its bodies. So
behind a jump the state is right if, and only if, the lexeme that the cursor came from leaves the
same state as the one in front. -/

namespace RubyTokens

/-- The state in front of an index: that after the lexeme in front of it, or at the start that in
which an expression may begin. -/
def stateBefore (ls : List Lexeme) : ℕ → Option State
  | 0 => some .beg
  | i + 1 => ls[i]?.map Lexeme.stateAfter

/-- The lexeme at `f` is the first one behind `k` that ends a line. -/
structure IsLineEndBehind (ls : List Lexeme) (k f : ℕ) : Prop where
  lt : k < f
  ends : ∃ l, ls[f]? = some l ∧ l.endsLine = true
  first : ∀ m, k < m → m < f → ∀ l, ls[m]? = some l → l.endsLine = false

/-- A jump of a cursor from the lexeme at `k` behind the one at `f`, with the note of it. -/
inductive Cursor.Jump (ls : List Lexeme) (c : Cursor) (k f : ℕ) : Cursor.Note → Prop
  /-- From an opener to its body, which begins on the next line. -/
  | nextLine (opener : IsIndexOf ls .heredocBeg k) (resume : c.resume = none)
      (lineEnd : IsLineEndBehind ls k f) : Jump ls c k f (.opened k (f + 1 : ℕ))
  /-- From a further opener of a line to its body, which begins behind the body before it. -/
  | nextBody (opener : IsIndexOf ls .heredocBeg k) (resume : c.resume = some (f : Int))
      (terminator : IsIndexOf ls .heredocEnd f) : Jump ls c k f (.opened k (f + 1 : ℕ))
  /-- From the end of a body behind the innermost opener. -/
  | opener (terminator : IsIndexOf ls .heredocEnd k) (innermost : c.openers.head? = some (f : Int))
      (opener : IsIndexOf ls .heredocBeg f) : Jump ls c k f (.closed k (f + 1 : ℕ))
  /-- From the end of a line past the bodies of its heredocs. -/
  | pastBodies (lineEnd : ∃ l, ls[k]? = some l ∧ l.endsLine = true) (closed : c.openers = [])
      (resume : c.resume = some (f : Int)) (terminator : IsIndexOf ls .heredocEnd f) :
      Jump ls c k f (.resumed k (f + 1 : ℕ))

variable {ls rest : List Lexeme} {l : Lexeme} {w : Place} {stride : Stride}

namespace Place

theorem exists_isLineEndBehind {b : ℕ} (hr : w.resume = none) (h : w.body? ls = some b) :
    ∃ f, b = f + 1 ∧ IsLineEndBehind ls w.index f := by
  rw [body?, hr] at h
  obtain ⟨k, hk, rfl⟩ := Option.map_eq_some_iff.1 h
  obtain ⟨hlt, hends, hfirst⟩ := List.findIdx?_eq_some_iff_getElem.1 hk
  rw [List.length_drop] at hlt
  rw [List.getElem_drop] at hends
  refine ⟨w.index + 1 + k, rfl, by omega, ⟨_, List.getElem?_eq_getElem (by omega), hends⟩, ?_⟩
  intro m hm hmf x hx
  obtain ⟨d, rfl⟩ := Nat.exists_eq_add_of_le (Nat.succ_le_of_lt hm)
  obtain ⟨hd, rfl⟩ := List.getElem?_eq_some_iff.1 hx
  have hnot := hfirst d (by omega)
  rw [List.getElem_drop] at hnot
  exact Bool.not_eq_true _ ▸ hnot

/-- A move that is noted at a sound place is a jump. -/
theorem Sound.exists_jump (h : w.Sound ls) (hw : ls.drop w.index = l :: rest)
    (hfits : stride.Fits l) {note : Cursor.Note} (hn : w.note? ls stride = some note) :
    ∃ f, (w.next ls stride).index = f + 1 ∧ (w.cursor ls).Jump ls w.index f note := by
  have hl : ls[w.index]? = some l := getElem?_of_drop_cons hw
  have hresume : ∀ {r : ℕ}, w.resume = some r → (w.cursor ls).resume = some (r : Int) ∧
      IsIndexOf ls .heredocEnd r := fun hr => by
    have hcursor : (w.cursor ls).resume = some (_ : Int) := congrArg (Option.map Int.ofNat) hr
    exact ⟨hcursor, h.rests.resume _ hcursor⟩
  rcases cases_of_note? hn with ⟨b, rfl, hb, rfl, hnext⟩ | ⟨o, os, rfl, ho, rfl, hnext⟩ |
    ⟨r, rfl, hr, ho, rfl, hnext⟩ <;> rw [hnext]
  · cases hr : w.resume with
    | none =>
      obtain ⟨f, rfl, hf⟩ := exists_isLineEndBehind hr hb
      exact ⟨f, rfl, .nextLine ⟨_, l, rfl, hl, hfits⟩ (congrArg (Option.map Int.ofNat) hr) hf⟩
    | some r =>
      rw [body?, hr] at hb
      cases hb
      obtain ⟨hcursor, hkind⟩ := hresume hr
      exact ⟨r, rfl, .nextBody ⟨_, l, rfl, hl, hfits⟩ hcursor hkind⟩
  · have hcursor : (w.cursor ls).openers = (o : Int) :: os.map Int.ofNat :=
      congrArg (List.map Int.ofNat) ho
    have hopener := h.rests.openers o (hcursor ▸ List.mem_cons_self)
    exact ⟨o, rfl, .opener ⟨_, l, rfl, hl, hfits⟩ (congrArg List.head? hcursor) hopener⟩
  · obtain ⟨hcursor, hkind⟩ := hresume hr
    exact ⟨r, rfl, .pastBodies ⟨l, hl, hfits⟩ (congrArg (List.map Int.ofNat) ho) hcursor hkind⟩

end Place

namespace Progress

variable {s : Setting} {p q : Progress}

/-- The step from `p` to `q` has jumped from the lexeme at `k`, which it read last, behind the one
at `f`. -/
structure Jumps (ls : List Lexeme) (p q : Progress) (k f : ℕ) : Prop where
  index : q.cursor.index = (f + 1 : ℕ)
  noted : ∃ made note, q.history = made :: p.history ∧ made.last = k ∧
    made.events = [.moved note] ∧ p.cursor.Jump ls k f note

/-- A step keeps the state after the lexeme that it read last, which is the one in front of the
next index or the one that the step has jumped from. -/
theorem exists_last_of_step (hp : p.IsAt ls w) (hw : w.Sound ls) (hs : p.step s = .ok q) {i : ℕ}
    (hi : q.cursor.index = i) (hlt : i < ls.length) :
    ∃ made k, q.history = made :: p.history ∧ made.last = (k : ℕ) ∧
      stateBefore ls (k + 1) = some q.state ∧ (i = k + 1 ∨ ∃ f, i = f + 1 ∧ Jumps ls p q k f) := by
  obtain ⟨l, rest, r, hdrop, hr, rfl⟩ := exists_of_step hp hs
  have hcursor : p.cursor = w.cursor ls := hp
  have hat : (w.next ls (r.stride.inOrder s.order)).index = i := Int.ofNat_inj.1 hi
  refine ⟨_, w.index + r.stride.count, rfl, rfl, ?_, ?_⟩
  · rw [stateBefore, getD_getElem? hdrop (count_le_of_reading hr)]
    rfl
  cases hn : w.note? ls (r.stride.inOrder s.order) with
  | some note =>
    have hzero := (Place.next_of_note? hn).2.2
    rw [Stride.count_inOrder] at hzero
    obtain ⟨f, hf, hjump⟩ :=
      hw.exists_jump hdrop ((Stride.fits_of_reading hr).inOrder s.order) hn
    rw [hzero, Nat.add_zero]
    refine .inr ⟨f, hat ▸ hf, ⟨congrArg Nat.cast hf, _, note, rfl, ?_, ?_, hcursor ▸ hjump⟩⟩
    · rw [hzero, Nat.add_zero]
    · exact show w.events s.order ls l r.stride = _ by rw [Place.events, hn]
  | none =>
    have hf : r.stride.inOrder s.order ≠ .finish := by
      intro hf
      rw [hf] at hat
      exact absurd hlt (by rw [← hat]; exact Nat.lt_irrefl _)
    rw [Place.next_of_note?_eq_none hn hf, Stride.count_inOrder] at hat
    refine .inl ?_
    rw [← hat]
    simp only [Place.ahead]
    omega

/-- A lexeme is classified in the state in front of it if, and only if, the step before has not
jumped, or has jumped from a lexeme that leaves the same state as the one in front. -/
theorem stateBefore_eq_iff {j : Job} {q : Progress} {i : ℕ}
    (hq : Reaches j.setting (.start j.lexemes) q) (hi : q.cursor.index = i)
    (hlt : i < j.lexemes.length) :
    stateBefore j.lexemes i = some q.state ↔
      ∀ p k f, Reaches j.setting (.start j.lexemes) p → p.step j.setting = .ok q →
        Jumps j.lexemes p q k f →
          stateBefore j.lexemes (k + 1) = stateBefore j.lexemes (f + 1) := by
  constructor
  · intro h p k f hp hs hjumps
    obtain ⟨w, hw, hsound⟩ := hp.exists_sound
    obtain ⟨made, last, hmade, hlast, hstate, -⟩ := exists_last_of_step hw hsound hs hi hlt
    obtain ⟨made', _, hmade', hlast', -⟩ := hjumps.noted
    obtain rfl := (List.cons.inj (hmade.symm.trans hmade')).1
    obtain rfl : last = k := Int.ofNat_inj.1 (hlast.symm.trans hlast')
    obtain rfl : i = f + 1 := Int.ofNat_inj.1 (hi.symm.trans hjumps.index)
    exact hstate.trans h.symm
  · intro h
    rcases Relation.ReflTransGen.cases_tail hq with rfl | ⟨p, hp, hs⟩
    · obtain rfl : 0 = i := Int.ofNat_inj.1 hi
      rfl
    obtain ⟨w, hw, hsound⟩ := Reaches.exists_sound hp
    obtain ⟨-, k, -, -, hstate, rfl | ⟨f, rfl, hjumps⟩⟩ :=
      exists_last_of_step hw hsound hs hi hlt
    · exact hstate
    · rw [← h p k f hp hs hjumps, hstate]

/-- An index on a heredoc: the bracket stands right behind the opener. -/
def indexedHeredoc : Job where
  source := ⟨"index.rb", "<<A[0]\nA\n"⟩
  lexemes := [
    ⟨1, 0, LexemeKind.heredocBeg.name, "<<A", .ended⟩,
    ⟨1, 3, LexemeKind.lbracket.name, "[", .union .beg .label⟩,
    ⟨1, 4, LexemeKind.integer.name, "0", .ended⟩, ⟨1, 5, LexemeKind.rbracket.name, "]", .ended⟩,
    ⟨1, 6, LexemeKind.newline.name, "\n", .beg⟩,
    ⟨2, 0, LexemeKind.heredocEnd.name, "A\n", .beg⟩]

/-- The stage at the heredoc's end, behind the opener. -/
def atTerminator : Progress := (run indexedHeredoc.setting 1 (.start indexedHeredoc.lexemes)).1

/-- The stage at the bracket, behind the opener and the end of the body. -/
def atBracket : Progress := (run indexedHeredoc.setting 2 (.start indexedHeredoc.lexemes)).1

/-- The step to the bracket jumps from the heredoc's end behind the opener. -/
theorem stateBefore_eq_iff_atBracket :
    let ls := indexedHeredoc.lexemes
    Reaches indexedHeredoc.setting (.start ls) atBracket ∧
      atBracket.cursor.index = (1 : ℕ) ∧ 1 < ls.length ∧
      atTerminator.step indexedHeredoc.setting = .ok atBracket ∧
      Jumps ls atTerminator atBracket 5 0 ∧
      (stateBefore ls 1 = some atBracket.state ↔
        ∀ p k f, Reaches indexedHeredoc.setting (.start ls) p →
          p.step indexedHeredoc.setting = .ok atBracket → Jumps ls p atBracket k f →
            stateBefore ls (k + 1) = stateBefore ls (f + 1)) :=
  have h : Reaches indexedHeredoc.setting (.start indexedHeredoc.lexemes) atBracket :=
    reaches_run _ 2 _
  have hjump : atTerminator.cursor.Jump indexedHeredoc.lexemes 5 0 (.closed 5 1) :=
    .opener ⟨5, _, rfl, rfl, by decide⟩ rfl ⟨0, _, rfl, rfl, by decide⟩
  ⟨h, by decide, by decide, rfl, ⟨rfl, _, _, rfl, rfl, rfl, hjump⟩,
    stateBefore_eq_iff (j := indexedHeredoc) h (by decide) (by decide)⟩

/-- The bracket is classified in the state after the heredoc's end, and not in that after its
opener. -/
theorem not_forall_stateBefore_eq :
    ¬ ∀ (j : Job) (q : Progress) (i : ℕ), Reaches j.setting (.start j.lexemes) q →
      q.cursor.index = i → i < j.lexemes.length → stateBefore j.lexemes i = some q.state := by
  intro h
  have hstate := h indexedHeredoc atBracket 1 (reaches_run _ 2 _) (by decide) (by decide)
  exact absurd hstate (by decide)

/-- So the bracket is taken for the beginning of an array. -/
example : indexedHeredoc.run.1.tokens.map Token.kind =
    [.stringBeg, .stringEnd, .lbrack, .integer, .rbrack, .newline] := by decide

end Progress

end RubyTokens
