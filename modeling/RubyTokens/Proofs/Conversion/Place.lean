import RubyTokens.Proofs.Conversion.Reading

/-! Places of a run. At the beginning of a step the cursor has no pending target, has read nothing
yet, and all its records are natural numbers; `Progress.step_eq` says what a step makes of such a
cursor, and that it leaves one behind. All that a run does with heredocs is a matter of places and
strides from here on. -/

namespace RubyTokens

/-- A cursor between two steps: its index, the openers whose bodies are being read, and the heredoc
end behind which reading goes on. -/
structure Place where
  index : ℕ
  openers : List ℕ := []
  resume : Option ℕ := none
  deriving DecidableEq, Repr

/-- The stride that is taken in an order: in the order of the grammar heredocs and line ends are
lexemes like others. -/
def Stride.inOrder : HeredocOrder → Stride → Stride
  | .lexer, stride => stride
  | .grammar, .finish => .finish
  | .grammar, stride => .past stride.count

@[simp] theorem Stride.count_inOrder (order : HeredocOrder) (stride : Stride) :
    (stride.inOrder order).count = stride.count := by
  cases order <;> cases stride <;> rfl

theorem Stride.inOrder_ne_finish {stride : Stride} (h : stride ≠ .finish) (order : HeredocOrder) :
    stride.inOrder order ≠ .finish := by
  cases stride <;> cases order <;> first | exact absurd rfl h | nofun

/-- The lexeme at which a move begins. -/
def Cursor.Note.source : Cursor.Note → Int
  | .opened opener _ => opener
  | .closed terminator _ => terminator
  | .resumed lineEnd _ => lineEnd

/-- The lexeme that a move leads to. -/
def Cursor.Note.target : Cursor.Note → Int
  | .opened _ body => body
  | .closed _ next => next
  | .resumed _ next => next

namespace Place

def cursor (ls : List Lexeme) (w : Place) : Cursor :=
  { lexemes := ls, index := w.index, last := w.index, openers := w.openers.map Int.ofNat,
    resume := w.resume.map Int.ofNat }

/-- Where the body of a heredoc begins that is opened here. -/
def body? (ls : List Lexeme) (w : Place) : Option ℕ :=
  match w.resume with
  | some r => some (r + 1)
  | none => ((ls.drop (w.index + 1)).findIdx? Lexeme.endsLine).map (w.index + 1 + · + 1)

/-- The place behind this one and some more lexemes. -/
def ahead (w : Place) (count : ℕ) : Place := { w with index := w.index + 1 + count }

/-- The place that a stride leads to. -/
def next (ls : List Lexeme) (w : Place) : Stride → Place
  | .past count => w.ahead count
  | .finish => { w with index := ls.length }
  | .openHeredoc =>
    match w.body? ls with
    | some body => ⟨body, w.index :: w.openers, w.resume⟩
    | none => w.ahead 0
  | .closeHeredoc =>
    match w.openers with
    | opener :: openers => ⟨opener + 1, openers, some w.index⟩
    | [] => w.ahead 0
  | .endLine =>
    match w.resume, w.openers with
    | some r, [] => ⟨r + 1, [], none⟩
    | _, _ => w.ahead 0

/-- What is noted of a stride. -/
def note? (ls : List Lexeme) (w : Place) : Stride → Option Cursor.Note
  | .openHeredoc => (w.body? ls).map fun body : ℕ => .opened w.index body
  | .closeHeredoc => w.openers.head?.map fun opener : ℕ => .closed w.index (opener + 1)
  | .endLine =>
    match w.resume, w.openers with
    | some r, [] => some (.resumed w.index (r + 1))
    | _, _ => none
  | _ => none

/-- What a step reports: the note of its stride, or that an opener stayed in place. -/
def events (order : HeredocOrder) (ls : List Lexeme) (w : Place) (l : Lexeme) (stride : Stride) :
    List Event :=
  match w.note? ls (stride.inOrder order) with
  | some note => [.moved note]
  | none => if stride = .openHeredoc then [.keptInPlace l.line l.column] else []

variable {ls : List Lexeme} {w : Place} {stride : Stride}

theorem bodyStart_cursor {l : Lexeme} {rest : List Lexeme} (h : ls.drop w.index = l :: rest) :
    (w.cursor ls).bodyStart = .ok ((w.body? ls).map Int.ofNat) := by
  have hat : (w.cursor ls).At w.index (l :: rest) := ⟨rfl, h⟩
  unfold Cursor.bodyStart body?
  rw [hat.findLineEnd, drop_of_drop_cons h]
  cases hr : w.resume with
  | some r => simp [cursor, hr]
  | none =>
    simp only [cursor, hr, Option.map_none]
    cases rest.findIdx? Lexeme.endsLine with
    | none => rfl
    | some k => rfl

theorem next_openHeredoc {b : ℕ} (h : w.body? ls = some b) :
    w.next ls .openHeredoc = ⟨b, w.index :: w.openers, w.resume⟩ := by rw [next, h]

theorem next_openHeredoc_of_none (h : w.body? ls = none) : w.next ls .openHeredoc = w.ahead 0 := by
  rw [next, h]

/-- The three moves that are noted. -/
theorem cases_of_note? {note : Cursor.Note} (h : w.note? ls stride = some note) :
    (∃ b, stride = .openHeredoc ∧ w.body? ls = some b ∧ note = .opened w.index b ∧
      w.next ls stride = ⟨b, w.index :: w.openers, w.resume⟩) ∨
    (∃ o openers, stride = .closeHeredoc ∧ w.openers = o :: openers ∧
      note = .closed w.index (o + 1) ∧ w.next ls stride = ⟨o + 1, openers, some w.index⟩) ∨
    (∃ r, stride = .endLine ∧ w.resume = some r ∧ w.openers = [] ∧
      note = .resumed w.index (r + 1) ∧ w.next ls stride = ⟨r + 1, [], none⟩) := by
  cases stride with
  | past k => cases h
  | finish => cases h
  | openHeredoc =>
    obtain ⟨b, hb, rfl⟩ := Option.map_eq_some_iff.1 h
    exact .inl ⟨b, rfl, hb, rfl, next_openHeredoc hb⟩
  | closeHeredoc =>
    obtain ⟨i, openers, resume⟩ := w
    cases openers with
    | nil => cases h
    | cons o openers => cases h; exact .inr (.inl ⟨o, openers, rfl, rfl, rfl, rfl⟩)
  | endLine =>
    obtain ⟨i, openers, resume⟩ := w
    cases resume with
    | none => cases h
    | some r =>
      cases openers with
      | nil => cases h; exact .inr (.inr ⟨r, rfl, rfl, rfl, rfl, rfl⟩)
      | cons o openers => cases h

/-- A move that is noted leads from the lexeme at hand to the next place. -/
theorem next_of_note? {note : Cursor.Note} (h : w.note? ls stride = some note) :
    note.source = w.index ∧ note.target = (w.next ls stride).index ∧ stride.count = 0 := by
  rcases cases_of_note? h with ⟨b, rfl, -, rfl, hnext⟩ | ⟨o, os, rfl, -, rfl, hnext⟩ |
    ⟨r, rfl, -, -, rfl, hnext⟩ <;> rw [hnext] <;> exact ⟨rfl, rfl, rfl⟩

/-- In the order of the grammar nothing is noted. -/
theorem note?_inOrder_grammar (ls : List Lexeme) (w : Place) (stride : Stride) :
    w.note? ls (stride.inOrder .grammar) = none := by
  cases stride <;> rfl

/-- Where nothing is noted, the next place lies right behind what was read. -/
theorem next_of_note?_eq_none (h : w.note? ls stride = none) (hf : stride ≠ .finish) :
    w.next ls stride = w.ahead stride.count := by
  cases stride with
  | past k => rfl
  | finish => exact absurd rfl hf
  | openHeredoc => exact next_openHeredoc_of_none (Option.map_eq_none_iff.1 h)
  | closeHeredoc =>
    obtain ⟨i, openers, resume⟩ := w
    cases openers with
    | nil => rfl
    | cons o openers => cases h
  | endLine =>
    obtain ⟨i, openers, resume⟩ := w
    cases resume with
    | none => rfl
    | some r =>
      cases openers with
      | nil => cases h
      | cons o openers => rfl

/-- Where nothing is noted, the cursor goes on, and its records stay. -/
theorem lt_index_next_of_note?_eq_none (h : w.note? ls stride = none) (hw : w.index < ls.length) :
    w.next ls stride = { w with index := (w.next ls stride).index } ∧
      w.index < (w.next ls stride).index := by
  by_cases hf : stride = .finish
  · subst hf
    exact ⟨rfl, hw⟩
  · rw [next_of_note?_eq_none h hf]
    exact ⟨rfl, by simp only [ahead]; omega⟩

/-- Where a line is to be taken up again and a heredoc is open, only what moves nothing is not
noted. -/
theorem passing_of_note?_eq_none (h : w.note? ls stride = none) (hf : stride ≠ .finish)
    (hr : w.resume ≠ none) (ho : w.openers ≠ []) :
    stride = .endLine ∨ stride = .past stride.count := by
  cases stride with
  | past k => exact .inr rfl
  | finish => exact absurd rfl hf
  | openHeredoc =>
    obtain ⟨r, hr⟩ := Option.ne_none_iff_exists'.1 hr
    have hb : w.body? ls = none := Option.map_eq_none_iff.1 h
    rw [body?, hr] at hb
    cases hb
  | closeHeredoc =>
    obtain ⟨o, openers, ho⟩ := List.exists_cons_of_ne_nil ho
    rw [note?, ho] at h
    cases h
  | endLine => exact .inl rfl

theorem body?_of_resume_none {b : ℕ} (hr : w.resume = none) (h : w.body? ls = some b) :
    w.index + 2 ≤ b ∧ b ≤ ls.length := by
  rw [body?, hr] at h
  obtain ⟨k, hk, rfl⟩ := Option.map_eq_some_iff.1 h
  have hlt := (List.findIdx?_eq_some_iff_getElem.1 hk).1
  rw [List.length_drop] at hlt
  omega

end Place

namespace Progress

variable {s : Setting} {p : Progress} {ls : List Lexeme} {w : Place} {l : Lexeme}
variable {rest : List Lexeme}

/-- A run under way that is at a place. -/
def IsAt (ls : List Lexeme) (w : Place) (p : Progress) : Prop := p.cursor = w.cursor ls

/-- A step from a place with what it read. -/
def after (s : Setting) (ls : List Lexeme) (w : Place) (p : Progress) (l : Lexeme)
    (rest : List Lexeme) (r : Reading) : Progress where
  cursor := (w.next ls (r.stride.inOrder s.order)).cursor ls
  state := ((l :: rest).getD r.stride.count l).stateAfter
  history :=
    { index := w.index
      last := (w.index + r.stride.count : ℕ)
      state := p.state
      tokens := r.tokens
      events := w.events s.order ls l r.stride } :: p.history

theorem getD_getElem? {k : ℕ} (hw : ls.drop w.index = l :: rest) (hk : k ≤ rest.length) :
    ls[w.index + k]? = some ((l :: rest).getD k l) := by
  rw [← List.getElem?_drop, hw, List.getD_eq_getElem?_getD,
    List.getElem?_eq_getElem (Nat.lt_succ_of_le hk), Option.getD_some]

/-- What a move makes of a cursor at a place: no fault, and all that the step and the advance behind
it need. -/
structure Carries (order : HeredocOrder) (ls : List Lexeme) (w : Place) (l : Lexeme) (move : Move)
    (stride : Stride) (m : Cursor.Moved) : Prop where
  fault : m.fault = none
  lexemes : m.cursor.lexemes = ls
  last : m.cursor.last = (w.index + stride.count : ℕ)
  advance : m.cursor.advance = (w.next ls (stride.inOrder order)).cursor ls
  events : eventsOf l move m = w.events order ls l stride

theorem carries_onward (order : HeredocOrder) (ls : List Lexeme) (w : Place) (l : Lexeme) :
    Carries order ls w l .onward (.past 0) { cursor := w.cursor ls } := by
  cases order <;> exact ⟨rfl, rfl, rfl, rfl, rfl⟩

theorem carries_consume (order : HeredocOrder) (ls : List Lexeme) (w : Place) (l : Lexeme) (k : ℕ)
    {move : Move} (hm : move ≠ .openHeredoc) :
    Carries order ls w l move (.past k) ((w.cursor ls).consume k) := by
  have hevents : eventsOf l move ((w.cursor ls).consume k) = [] := if_neg fun h => hm h.1
  cases order <;> exact ⟨rfl, rfl, rfl, rfl, hevents⟩

theorem carries_finish (order : HeredocOrder) (ls : List Lexeme) (w : Place) (l : Lexeme) :
    Carries order ls w l .finish .finish (w.cursor ls).finish := by
  cases order <;> exact ⟨rfl, rfl, rfl, rfl, rfl⟩

theorem carries_openHeredoc (hw : ls.drop w.index = l :: rest) :
    Carries .lexer ls w l .openHeredoc .openHeredoc (w.cursor ls).openHeredoc := by
  have hbody := Place.bodyStart_cursor hw
  cases hb : w.body? ls with
  | none =>
    rw [hb] at hbody
    have hopen : (w.cursor ls).openHeredoc = { cursor := w.cursor ls } := by
      rw [Cursor.openHeredoc, hbody]; rfl
    have hnext := Place.next_openHeredoc_of_none hb
    have hevents : w.events .lexer ls l .openHeredoc = [.keptInPlace l.line l.column] := by
      simp [Place.events, Place.note?, Stride.inOrder, hb]
    rw [hopen]
    exact ⟨rfl, rfl, rfl, hnext ▸ rfl, hevents ▸ rfl⟩
  | some b =>
    rw [hb] at hbody
    have hopen : (w.cursor ls).openHeredoc =
        { cursor :=
            { w.cursor ls with pending := some b, openers := w.index :: (w.cursor ls).openers }
          notes := [.opened w.index b] } := by
      rw [Cursor.openHeredoc, hbody]; rfl
    have hnext := Place.next_openHeredoc hb
    have hevents : w.events .lexer ls l .openHeredoc = [.moved (.opened w.index b)] := by
      simp [Place.events, Place.note?, Stride.inOrder, hb]
    rw [hopen]
    exact ⟨rfl, rfl, rfl, hnext ▸ rfl, hevents ▸ rfl⟩

theorem carries_closeHeredoc (ls : List Lexeme) (w : Place) (l : Lexeme) :
    Carries .lexer ls w l .closeHeredoc .closeHeredoc (w.cursor ls).closeHeredoc := by
  obtain ⟨i, openers, resume⟩ := w
  cases openers <;> exact ⟨rfl, rfl, rfl, rfl, rfl⟩

theorem carries_endLine (ls : List Lexeme) (w : Place) (l : Lexeme) :
    Carries .lexer ls w l .endLine .endLine (w.cursor ls).endLine := by
  obtain ⟨i, openers, resume⟩ := w
  cases resume <;> cases openers <;> exact ⟨rfl, rfl, rfl, rfl, rfl⟩

/-- In the order of the grammar a heredoc or a line end does not move the cursor. -/
theorem carries_inPlace (ls : List Lexeme) (w : Place) (l : Lexeme) {move : Move} {stride : Stride}
    (h : (move, stride) ∈ [(Move.openHeredoc, Stride.openHeredoc), (.closeHeredoc, .closeHeredoc),
      (.endLine, .endLine)]) :
    Carries .grammar ls w l move stride { cursor := w.cursor ls } := by
  simp only [List.mem_cons, Prod.mk.injEq, List.not_mem_nil, or_false] at h
  rcases h with ⟨rfl, rfl⟩ | ⟨rfl, rfl⟩ | ⟨rfl, rfl⟩ <;> exact ⟨rfl, rfl, rfl, rfl, rfl⟩

theorem apply_carries (order : HeredocOrder) (hw : ls.drop w.index = l :: rest) {move : Move}
    (hm : ∀ j, move = .consumeThrough j → ∃ k : ℕ, j = (w.index + k : ℕ)) :
    Carries order ls w l move (move.stride w.index) ((w.cursor ls).apply order move) := by
  cases move with
  | onward => exact carries_onward order ls w l
  | consume k => exact carries_consume order ls w l k (by simp)
  | finish => exact carries_finish order ls w l
  | consumeThrough j =>
    obtain ⟨k, rfl⟩ := hm j rfl
    have hstride : (Move.consumeThrough ((w.index + k : ℕ) : Int)).stride w.index = .past k := by
      have hk : ((w.index + k : ℕ) - (w.index : Int)).toNat = k := by omega
      rw [Move.stride, hk]
    have hthrough : (w.cursor ls).consumeThrough ((w.index + k : ℕ) : Int) =
        (w.cursor ls).consume k := by
      have hle : ¬ ((w.index + k : ℕ) : Int) < (w.cursor ls).index := by
        simp only [Place.cursor]; omega
      have htarget : ((w.index + k : ℕ) : Int) + 1 = (w.cursor ls).index + 1 + k := by
        simp only [Place.cursor]; omega
      rw [Cursor.consumeThrough, if_neg hle, htarget]
      rfl
    rw [hstride, Cursor.apply, hthrough]
    exact carries_consume order ls w l k (by simp)
  | openHeredoc =>
    cases order with
    | lexer => exact carries_openHeredoc hw
    | grammar => exact carries_inPlace ls w l (by simp [Move.stride])
  | closeHeredoc =>
    cases order with
    | lexer => exact carries_closeHeredoc ls w l
    | grammar => exact carries_inPlace ls w l (by simp [Move.stride])
  | endLine =>
    cases order with
    | lexer => exact carries_endLine ls w l
    | grammar => exact carries_inPlace ls w l (by simp [Move.stride])

theorem exists_of_move_of {j : Int} (h : Move.of s.options w.index l rest = .consumeThrough j) :
    ∃ k : ℕ, j = (w.index + k : ℕ) := by
  unfold Move.of at h
  split at h
  case h_4 =>
    cases h
    exact ⟨_, (Int.natCast_add _ _).symm⟩
  all_goals first | cases h | (split at h <;> cases h)

/-- What a step makes of a place. -/
theorem step_eq (hp : p.IsAt ls w) (hw : ls.drop w.index = l :: rest) :
    p.step s = (reading s.lines s.options p.state (l :: rest)).map (p.after s ls w l rest) := by
  have hcur : p.cursor = w.cursor ls := hp
  have hat : (w.cursor ls).At w.index (l :: rest) := ⟨rfl, hw⟩
  unfold step
  rw [hcur, hat.current, ← map_reading_eq hat]
  dsimp only
  cases hy : Yield.ofLexeme s.lines s.options p.state (w.cursor ls) l with
  | error e => rfl
  | ok y =>
    have hm := Yield.move_ofLexeme hat hy
    have hthrough : ∀ j, y.move = .consumeThrough j → ∃ k : ℕ, j = (w.index + k : ℕ) :=
      fun j hj => exists_of_move_of (hm ▸ hj)
    have hc := apply_carries s.order hw hthrough
    have hr : reading s.lines s.options p.state (l :: rest) = .ok (y.reading w.index) := by
      rw [← map_reading_eq hat, hy]
      rfl
    have hcount : (y.move.stride w.index).count ≤ rest.length := count_le_of_reading hr
    have hlast : ((w.cursor ls).apply s.order y.move).cursor.lastConsumed =
        .ok ((l :: rest).getD (y.move.stride w.index).count l) := by
      rw [Cursor.lastConsumed, hc.last]
      apply Cursor.lexemeAt_of_getElem?
      rw [hc.lexemes]
      exact getD_getElem? hw hcount
    dsimp only [Except.map]
    rw [follow, hcur]
    dsimp only
    rw [hc.fault, hlast]
    dsimp only
    rw [hc.last, hc.advance, hc.events]
    rfl

theorem isExhausted_iff (hp : p.IsAt ls w) : p.cursor.isExhausted = true ↔ ls.length ≤ w.index := by
  have hcur : p.cursor = w.cursor ls := hp
  rw [hcur, Cursor.isExhausted, decide_eq_true_iff]
  exact Int.ofNat_le

theorem step_error_of_length_le (hp : p.IsAt ls w) (h : ls.length ≤ w.index) :
    ∃ f, p.step s = .error f := by
  have hcur : p.cursor = w.cursor ls := hp
  have hpos : ¬ (w.index : Int) < 0 := by omega
  have hnone : ls[w.index]? = none := List.getElem?_eq_none h
  refine ⟨.cursor (if Cursor.fits w.index then .outOfRange else .unfitIndex), ?_⟩
  unfold step
  rw [hcur]
  simp only [Cursor.current, Cursor.lexemeAt, Place.cursor, hpos, ↓reduceIte, Int.toNat_natCast,
    hnone, Option.elim_none]
  rfl

/-- A step that succeeds reads a lexeme, and goes on from the next place. -/
theorem exists_of_step {q : Progress} (hp : p.IsAt ls w) (h : p.step s = .ok q) :
    ∃ l rest r, ls.drop w.index = l :: rest ∧
      reading s.lines s.options p.state (l :: rest) = .ok r ∧ q = p.after s ls w l rest r := by
  cases hw : ls.drop w.index with
  | nil =>
    obtain ⟨f, hf⟩ := step_error_of_length_le (s := s) hp (List.drop_eq_nil_iff.1 hw)
    rw [hf] at h
    cases h
  | cons l rest =>
    rw [step_eq hp hw] at h
    cases hr : reading s.lines s.options p.state (l :: rest) with
    | error e => rw [hr] at h; cases h
    | ok r => rw [hr] at h; cases h; exact ⟨l, rest, r, rfl, hr, rfl⟩

/-- A step that fails where lexemes are left fails by what it makes of the lexeme there. -/
theorem exists_of_step_error {f : Failure} (hp : p.IsAt ls w) (he : p.cursor.isExhausted = false)
    (h : p.step s = .error f) : ∃ l rest, ls.drop w.index = l :: rest ∧
      reading s.lines s.options p.state (l :: rest) = .error f := by
  cases hw : ls.drop w.index with
  | nil =>
    rw [(isExhausted_iff hp).2 (List.drop_eq_nil_iff.1 hw)] at he
    cases he
  | cons l rest =>
    rw [step_eq hp hw] at h
    cases hr : reading s.lines s.options p.state (l :: rest) with
    | ok r => rw [hr] at h; cases h
    | error e => rw [hr] at h; cases h; exact ⟨l, rest, rfl, hr⟩

end Progress

end RubyTokens
