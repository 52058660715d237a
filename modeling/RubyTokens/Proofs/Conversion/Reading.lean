import RubyTokens.Conversion.Run
import RubyTokens.Proofs.Cursor.Lookup

/-! What a step reads, apart from where the cursor stands. A lexeme and those behind it decide the
tokens and the stride of a step: nothing before the lexeme counts, of those behind it only what
`Lexeme.SeesAlike` compares, and the lexer's state decides the kinds of tokens but neither the
stride nor a failure. -/

namespace RubyTokens

/-- Where a step goes on, relative to its lexeme: behind some more lexemes that it reads, or to a
place that the cursor's records decide. -/
inductive Stride where
  | past (count : ℕ)
  | finish
  | openHeredoc
  | closeHeredoc
  | endLine
  deriving DecidableEq, Repr

/-- The number of lexemes that are read beyond the first one. -/
def Stride.count : Stride → ℕ
  | .past count => count
  | _ => 0

/-- A move from the lexeme at an index, as a stride. -/
def Move.stride (index : Int) : Move → Stride
  | .onward => .past 0
  | .consume count => .past count
  | .consumeThrough i => .past (i - index).toNat
  | .finish => .finish
  | .openHeredoc => .openHeredoc
  | .closeHeredoc => .closeHeredoc
  | .endLine => .endLine

/-- What one step makes of a lexeme and those behind it. -/
structure Reading where
  tokens : List Token
  stride : Stride
  deriving DecidableEq

def Yield.reading (index : Int) (y : Yield) : Reading := ⟨y.tokens, y.move.stride index⟩

/-- The reading of the first lexeme of a list, where the lexer was in `state` before it. -/
def reading (lines : LineTable) (options : Options) (state : State) :
    List Lexeme → Except Failure Reading
  | [] => .error (.cursor .outOfRange)
  | l :: rest =>
    (Yield.ofLexeme lines options state (.start (l :: rest)) l).map (Yield.reading 0)

/-! ### What a lexeme sees of those behind it -/

/-- The place of the end of an embedded document. -/
def embdocEnd? (ls : List Lexeme) : Option ℕ :=
  ls.findIdx? (·.kind == (LexemeKind.embdocEnd.name : Text))

/-- What a lexeme at an index asks for by its kind and by the lexemes behind it. -/
def Move.of (options : Options) (index : Int) (l : Lexeme) (rest : List Lexeme) : Move :=
  match Role.of options l.kind with
  | .wordList _ => if rest[0]?.any (·.hasKind .wordsSep) then .consume 1 else .onward
  | .known .tstringBeg =>
    match if Yield.isPlainQuote l.text then Yield.plainRest? rest[0]? rest[1]? else none with
    | some (_, count, _) => .consume count
    | none => .onward
  | .known .symbeg => if l.text = ":" ∧ rest ≠ [] then .consume 1 else .onward
  | .known .embdocBeg => .consumeThrough (index + ((embdocEnd? (l :: rest)).getD 0 : ℕ))
  | .known .newline | .known .ignoredNewline => .endLine
  | .known .comment => if l.endsLine then .endLine else .onward
  | .known .heredocBeg => .openHeredoc
  | .known .heredocEnd => .closeHeredoc
  | .known .dataEnd => .finish
  | _ => .onward

/-- The stride of a lexeme with those behind it. -/
def Stride.of (options : Options) (l : Lexeme) (rest : List Lexeme) : Stride :=
  (Move.of options 0 l rest).stride 0

/-- Two lists look alike behind a lexeme: an operator sees the same number, a list of words the same
separator, a quote the same plain string, and an opener the same symbol or document. -/
structure Lexeme.SeesAlike (l : Lexeme) (rest rest' : List Lexeme) : Prop where
  number : l.hasKind .operator →
    ((rest[0]?.map Lexeme.kind).bind LexemeKind.ofText?).any LexemeKind.isNumeric =
      ((rest'[0]?.map Lexeme.kind).bind LexemeKind.ofText?).any LexemeKind.isNumeric
  separator : (l.kind?.bind LexemeKind.wordList?).isSome →
    rest[0]?.any (·.hasKind .wordsSep) = rest'[0]?.any (·.hasKind .wordsSep)
  string : l.hasKind .tstringBeg →
    Yield.plainRest? rest[0]? rest[1]? = Yield.plainRest? rest'[0]? rest'[1]?
  symbol : l.hasKind .symbeg → l.text = ":" → rest[0]? = rest'[0]?
  embdoc : l.hasKind .embdocBeg → embdocEnd? (l :: rest) = embdocEnd? (l :: rest') ∧
    ∀ k, embdocEnd? (l :: rest) = some k → (l :: rest).take (k + 1) = (l :: rest').take (k + 1)

theorem Lexeme.SeesAlike.refl (l : Lexeme) (rest : List Lexeme) : l.SeesAlike rest rest :=
  ⟨fun _ => rfl, fun _ => rfl, fun _ => rfl, fun _ _ => rfl, fun _ => ⟨rfl, fun _ _ => rfl⟩⟩

/-- A lexeme that is neither a character literal nor unknown has the role of its kind. -/
theorem Role.exists_ofKind {options : Options} {l : Lexeme} {role : Role}
    (h : Role.of options l.kind = role) (hc : role ≠ .character) (hu : role ≠ .unknown) :
    ∃ k, l.kind? = some k ∧ Role.ofKind k = role := by
  rw [Lexeme.kind?]
  unfold Role.of at h
  cases hk : LexemeKind.ofText? l.kind with
  | none =>
    rw [hk] at h
    simp only [Option.map_none] at h
    split_ifs at h
    · exact absurd h.symm hc
    · exact absurd h.symm hu
  | some j =>
    rw [hk] at h
    simp only [Option.map_some] at h
    refine ⟨j, rfl, ?_⟩
    split at h
    next heq =>
      split_ifs at h
      · exact absurd h.symm hc
      · exact (Option.some.inj heq).trans h
    next heq => exact (Option.some.inj heq).trans h
    next heq => cases heq

theorem Role.hasKind_of_known {options : Options} {l : Lexeme} {k : LexemeKind}
    (h : Role.of options l.kind = .known k) : l.hasKind k = true := by
  obtain ⟨j, hj, hrole⟩ := Role.exists_ofKind h (by simp) (by simp)
  unfold Role.ofKind at hrole
  split_ifs at hrole
  split at hrole <;> cases hrole
  exact Lexeme.hasKind_iff.2 hj

theorem Role.wordList?_of_wordList {options : Options} {l : Lexeme} {kind : TokenKind}
    (h : Role.of options l.kind = .wordList kind) :
    l.kind?.bind LexemeKind.wordList? = some kind := by
  obtain ⟨j, hj, hrole⟩ := Role.exists_ofKind h (by simp) (by simp)
  unfold Role.ofKind at hrole
  split_ifs at hrole
  split at hrole
  next => cases hrole
  next hlist => cases hrole; rw [hj]; exact hlist
  next => cases hrole

theorem Role.direct?_of_direct {options : Options} {l : Lexeme} {kind : TokenKind}
    (h : Role.of options l.kind = .direct kind) : l.kind?.bind LexemeKind.direct? = some kind := by
  obtain ⟨j, hj, hrole⟩ := Role.exists_ofKind h (by simp) (by simp)
  unfold Role.ofKind at hrole
  split_ifs at hrole
  split at hrole
  next hdirect => cases hrole; rw [hj]; exact hdirect
  next => cases hrole
  next => cases hrole

theorem Role.ofKind_ne_unknown (k : LexemeKind) : Role.ofKind k ≠ .unknown := by
  cases k <;> decide

theorem Role.kind?_of_unknown {options : Options} {l : Lexeme}
    (h : Role.of options l.kind = .unknown) : l.kind? = none := by
  rw [Lexeme.kind?]
  unfold Role.of at h
  cases hk : LexemeKind.ofText? l.kind with
  | none => rfl
  | some j =>
    rw [hk] at h
    simp only [Option.map_some] at h
    split at h
    next => split_ifs at h
    next hrole => cases h; exact absurd (Option.some.inj hrole) (Role.ofKind_ne_unknown j)
    next hnone => cases hnone

/-! ### Chains that succeed -/

theorem exists_of_bind {ε α β : Type} {x : Except ε α} {f : α → Except ε β} {b : β}
    (h : x >>= f = .ok b) : ∃ a, x = .ok a ∧ f a = .ok b := by
  cases x with
  | error e => cases h
  | ok a => exact ⟨a, rfl, h⟩

theorem ok_of_mapError {ε ε' α : Type} {f : ε → ε'} {x : Except ε α} {a : α}
    (h : x.mapError f = .ok a) : x = .ok a := by
  cases x with
  | error e => cases h
  | ok b => cases h; rfl

namespace Yield

variable {lines : LineTable} {options : Options} {state : State}

section Alike

variable {c c' : Cursor} {i i' : ℕ} {l : Lexeme} {rest rest' : List Lexeme}

theorem map_reading_string (hc : c.At i (l :: rest)) (hc' : c'.At i' (l :: rest'))
    (h : l.SeesAlike rest rest') (hl : l.hasKind .tstringBeg = true) :
    (string lines c l).map (reading i) = (string lines c' l).map (reading i') := by
  have h1 : c.peek 1 = .ok rest[0]? := hc.peek 1
  have h2 : c.peek 2 = .ok rest[1]? := hc.peek 2
  have h1' : c'.peek 1 = .ok rest'[0]? := hc'.peek 1
  have h2' : c'.peek 2 = .ok rest'[1]? := hc'.peek 2
  unfold string
  rw [h1, h2, h1', h2']
  cases spanOf lines l with
  | error e => rfl
  | ok start =>
    simp only [bind, Except.bind, Except.mapError, h.string hl]
    split
    next content count last _ => cases covering lines start last .string content <;> rfl
    next => rfl

theorem map_reading_symbol (hc : c.At i (l :: rest)) (hc' : c'.At i' (l :: rest'))
    (h : l.SeesAlike rest rest') (hl : l.hasKind .symbeg = true) :
    (symbol lines c l).map (reading i) = (symbol lines c' l).map (reading i') := by
  have h1 : c.peek 1 = .ok rest[0]? := hc.peek 1
  have h1' : c'.peek 1 = .ok rest'[0]? := hc'.peek 1
  have hcolon : (if l.text = ":" then rest[0]? else none) =
      if l.text = ":" then rest'[0]? else none := by
    split_ifs with ht
    · exact h.symbol hl ht
    · rfl
  unfold symbol
  rw [h1, h1']
  cases spanOf lines l with
  | error e => rfl
  | ok start =>
    simp only [bind, Except.bind, Except.mapError, hcolon]
    split
    next content _ => cases covering lines start content .symbol content.text <;> rfl
    next => rfl

theorem map_reading_embdoc (hc : c.At i (l :: rest)) (hc' : c'.At i' (l :: rest'))
    (h : l.SeesAlike rest rest') (hl : l.hasKind .embdocBeg = true) :
    (embdoc lines c l).map (reading i) = (embdoc lines c' l).map (reading i') := by
  have hf := hc.findForward LexemeKind.embdocEnd.name
  have hf' := hc'.findForward LexemeKind.embdocEnd.name
  obtain ⟨hend, htake⟩ := h.embdoc hl
  unfold embdocEnd? at hend htake
  unfold embdoc
  rw [hf, hf', ← hend]
  cases hk : (l :: rest).findIdx? (·.kind == (LexemeKind.embdocEnd.name : Text)) with
  | none => rfl
  | some k =>
    simp only [bind, Except.bind, Except.mapError, Option.map_some, hc.runThrough, hc'.runThrough,
      htake k hk]
    cases spanOf lines l with
    | error e => rfl
    | ok start =>
      simp only
      cases covering lines start (((l :: rest').take (k + 1)).getLastD l) .comment
        (Text.join (((l :: rest').take (k + 1)).map Lexeme.text)) with
      | error e => rfl
      | ok ts =>
        have hi : ((i + k : ℕ) - (i : Int)).toNat = ((i' + k : ℕ) - (i' : Int)).toNat := by omega
        simp only [pure, Except.pure, Except.map, reading, Move.stride, hi]

theorem kind_eq_wordsSep_iff (o : Option Lexeme) :
    o.map Lexeme.kind = some (LexemeKind.wordsSep.name : Text) ↔
      o.any (·.hasKind .wordsSep) = true := by
  cases o with
  | none => simp
  | some l => simp [Lexeme.hasKind]

theorem map_reading_wordList (hc : c.At i (l :: rest)) (hc' : c'.At i' (l :: rest'))
    (h : l.SeesAlike rest rest') {kind : TokenKind}
    (hl : l.kind?.bind LexemeKind.wordList? = some kind) :
    (wordList lines c l kind).map (reading i) = (wordList lines c' l kind).map (reading i') := by
  have h1 : c.peekKind 1 = .ok (rest[0]?.map Lexeme.kind) := hc.peekKind 1
  have h1' : c'.peekKind 1 = .ok (rest'[0]?.map Lexeme.kind) := hc'.peekKind 1
  unfold wordList
  rw [h1, h1']
  have hiff : rest[0]?.map Lexeme.kind = some (LexemeKind.wordsSep.name : Text) ↔
      rest'[0]?.map Lexeme.kind = some (LexemeKind.wordsSep.name : Text) := by
    rw [kind_eq_wordsSep_iff, kind_eq_wordsSep_iff, h.separator (by rw [hl]; rfl)]
  simp only [bind, Except.bind, Except.mapError, Option.bind_some]
  cases single lines l kind (.text l.text) with
  | error e => rfl
  | ok ts =>
    simp only [pure, Except.pure, Except.map]
    split_ifs with hs hs' hs'
    · rfl
    · exact absurd (hiff.1 hs) hs'
    · exact absurd (hiff.2 hs') hs
    · rfl

/-- Of the lexeme behind an operator only counts whether it is a number. -/
theorem operator_congr {following following' : Option Text}
    (h : (following.bind LexemeKind.ofText?).any LexemeKind.isNumeric =
      (following'.bind LexemeKind.ofText?).any LexemeKind.isNumeric) :
    operator lines state following l = operator lines state following' l := by
  have hminus : Ambiguous.minus state following = Ambiguous.minus state following' := by
    unfold Ambiguous.minus
    rw [h]
  unfold operator
  congr 1
  unfold operatorKind?
  rw [hminus]

theorem map_reading_ofKind (hc : c.At i (l :: rest)) (hc' : c'.At i' (l :: rest'))
    (h : l.SeesAlike rest rest') {k : LexemeKind} (hk : l.hasKind k = true) :
    (ofKind lines options state c l k).map (reading i) =
      (ofKind lines options state c' l k).map (reading i') := by
  cases k with
  | tstringBeg => exact map_reading_string hc hc' h hk
  | symbeg => exact map_reading_symbol hc hc' h hk
  | embdocBeg => exact map_reading_embdoc hc hc' h hk
  | operator =>
    have h1 : c.peekKind 1 = .ok (rest[0]?.map Lexeme.kind) := hc.peekKind 1
    have h1' : c'.peekKind 1 = .ok (rest'[0]?.map Lexeme.kind) := hc'.peekKind 1
    unfold ofKind
    rw [h1, h1']
    simp only [bind, Except.bind, Except.mapError, operator_congr (h.number hk)]
    cases operator lines state (rest'[0]?.map Lexeme.kind) l <;> rfl
  | _ =>
    unfold ofKind
    simp only [bind, Except.bind]
    first | rfl | (split <;> first | rfl | (split_ifs <;> rfl))

/-- A lexeme yields the same wherever it stands, if it sees the same behind it. -/
theorem map_reading_ofLexeme (hc : c.At i (l :: rest)) (hc' : c'.At i' (l :: rest'))
    (h : l.SeesAlike rest rest') :
    (ofLexeme lines options state c l).map (reading i) =
      (ofLexeme lines options state c' l).map (reading i') := by
  unfold ofLexeme
  cases hrole : Role.of options l.kind with
  | wordList kind => exact map_reading_wordList hc hc' h (Role.wordList?_of_wordList hrole)
  | known k => exact map_reading_ofKind hc hc' h (Role.hasKind_of_known hrole)
  | dropped => rfl
  | direct kind =>
    dsimp only
    cases single lines l kind (.text l.text) <;> rfl
  | character =>
    dsimp only
    cases single lines l .character (.text (dropFirst l.text)) <;> rfl
  | unknown =>
    dsimp only
    cases spanOf lines l <;> rfl

end Alike

section Kind

variable {c : Cursor} {i : ℕ} {l : Lexeme} {rest : List Lexeme} {y : Yield}

/-! ### What the state decides -/

theorem single_map_unit (kind kind' : TokenKind) (payload payload' : Payload) :
    (single lines l kind payload).map (fun _ => ()) =
      (single lines l kind' payload').map (fun _ => ()) := by
  unfold single
  cases spanOf lines l <;> rfl

theorem isSome_keywordKind? (state' : State) (text : String) :
    (keywordKind? state text).isSome = (keywordKind? state' text).isSome := by
  simp [keywordKind?, Ambiguous.modifierKeyword?]

theorem isSome_operatorKind? (state' : State) (following : Option Text) (text : String) :
    (operatorKind? state following text).isSome = (operatorKind? state' following text).isSome := by
  unfold operatorKind?
  split_ifs <;> rfl

theorem keyword_map_unit (state' : State) :
    (keyword lines state l).map (fun _ => ()) = (keyword lines state' l).map (fun _ => ()) := by
  unfold keyword
  have h : (l.text.string?.bind (keywordKind? state)).isSome =
      (l.text.string?.bind (keywordKind? state')).isSome := by
    cases l.text.string? with
    | none => rfl
    | some text => exact isSome_keywordKind? state' text
  cases hk : l.text.string?.bind (keywordKind? state) <;>
    cases hk' : l.text.string?.bind (keywordKind? state') <;> rw [hk, hk'] at h
  · cases h
  · cases h
  · exact single_map_unit ..

theorem operator_map_unit (state' : State) (following : Option Text) :
    (operator lines state following l).map (fun _ => ()) =
      (operator lines state' following l).map (fun _ => ()) := by
  unfold operator
  have h : (l.text.string?.bind (operatorKind? state following)).isSome =
      (l.text.string?.bind (operatorKind? state' following)).isSome := by
    cases l.text.string? with
    | none => rfl
    | some text => exact isSome_operatorKind? state' following text
  cases hk : l.text.string?.bind (operatorKind? state following) <;>
    cases hk' : l.text.string?.bind (operatorKind? state' following) <;> rw [hk, hk'] at h
  · cases h
  · cases h
  · exact single_map_unit ..

theorem map_move_congr {ts ts' : Except Failure (List Token)}
    (h : ts.map (fun _ => ()) = ts'.map (fun _ => ())) (move : Move) :
    (do return (⟨← ts, move⟩ : Yield) : Except Failure Yield).map Yield.move =
      (do return (⟨← ts', move⟩ : Yield) : Except Failure Yield).map Yield.move := by
  cases ts with
  | error e =>
    cases ts' with
    | error e' => rw [Except.error.inj h]
    | ok _ => cases h
  | ok _ =>
    cases ts' with
    | error _ => cases h
    | ok _ => rfl

theorem ofKind_map_move (state' : State) (c : Cursor) (k : LexemeKind) :
    (ofKind lines options state c l k).map Yield.move =
      (ofKind lines options state' c l k).map Yield.move := by
  cases k with
  | keyword => exact map_move_congr (keyword_map_unit state') .onward
  | operator =>
    unfold ofKind
    simp only [bind, Except.bind]
    cases (c.peekKind 1).mapError Failure.cursor with
    | error e => rfl
    | ok following => exact map_move_congr (operator_map_unit state' following) .onward
  | lbrace => exact map_move_congr (single_map_unit ..) .onward
  | lbracket => exact map_move_congr (single_map_unit ..) .onward
  | lparen => exact map_move_congr (single_map_unit ..) .onward
  | _ => rfl

theorem ofLexeme_map_move (state' : State) (c : Cursor) :
    (ofLexeme lines options state c l).map Yield.move =
      (ofLexeme lines options state' c l).map Yield.move := by
  unfold ofLexeme
  cases Role.of options l.kind with
  | known k => exact ofKind_map_move state' c k
  | _ => rfl

/-! ### Moves -/

theorem move_of_tokens {ts : Except Failure (List Token)} {move : Move}
    (h : (do return (⟨← ts, move⟩ : Yield) : Except Failure Yield) = .ok y) : y.move = move := by
  cases ts with
  | error e => cases h
  | ok ts => cases h; rfl

theorem move_string (hc : c.At i (l :: rest)) (h : string lines c l = .ok y) :
    y.move = match if isPlainQuote l.text then plainRest? rest[0]? rest[1]? else none with
      | some (_, count, _) => .consume count
      | none => .onward := by
  have h1 : c.peek 1 = .ok rest[0]? := hc.peek 1
  have h2 : c.peek 2 = .ok rest[1]? := hc.peek 2
  unfold string at h
  rw [h1, h2] at h
  cases hs : spanOf lines l with
  | error e => rw [hs] at h; cases h
  | ok start =>
    cases hq : (if isPlainQuote l.text then plainRest? rest[0]? rest[1]? else none) with
    | none =>
      simp only [hs, hq, bind, Except.bind, Except.mapError] at h
      cases h
      rfl
    | some whole =>
      obtain ⟨content, count, last⟩ := whole
      simp only [hs, hq, bind, Except.bind, Except.mapError] at h
      cases hcov : covering lines start last .string content with
      | error e => rw [hcov] at h; cases h
      | ok ts => rw [hcov] at h; cases h; rfl

theorem move_symbol (hc : c.At i (l :: rest)) (h : symbol lines c l = .ok y) :
    y.move = if l.text = ":" ∧ rest ≠ [] then .consume 1 else .onward := by
  have h1 : c.peek 1 = .ok rest[0]? := hc.peek 1
  unfold symbol at h
  rw [h1] at h
  cases hs : spanOf lines l with
  | error e => rw [hs] at h; cases h
  | ok start =>
    simp only [hs, bind, Except.bind, Except.mapError] at h
    split at h
    next content hq =>
      have hcolon : l.text = ":" ∧ rest ≠ [] := by
        split_ifs at hq with ht
        exact ⟨ht, by rintro rfl; cases hq⟩
      rw [if_pos hcolon]
      cases hcov : covering lines start content .symbol content.text with
      | error e => rw [hcov] at h; cases h
      | ok ts => rw [hcov] at h; cases h; rfl
    next hq =>
      have hcolon : ¬ (l.text = ":" ∧ rest ≠ []) := by
        rintro ⟨ht, hne⟩
        rw [if_pos ht] at hq
        exact hne (by simpa using hq)
      rw [if_neg hcolon]
      cases h
      rfl

theorem move_embdoc (hc : c.At i (l :: rest)) (h : embdoc lines c l = .ok y) :
    y.move = .consumeThrough (i + ((embdocEnd? (l :: rest)).getD 0 : ℕ)) := by
  have hf := hc.findForward LexemeKind.embdocEnd.name
  unfold embdoc at h
  rw [hf] at h
  unfold embdocEnd?
  cases hk : (l :: rest).findIdx? (·.kind == (LexemeKind.embdocEnd.name : Text)) with
  | none => rw [hk] at h; cases h
  | some k =>
    rw [hk] at h
    simp only [bind, Except.bind, Except.mapError, Option.map_some] at h
    cases hs : spanOf lines l with
    | error e => rw [hs] at h; cases h
    | ok start =>
      rw [hs] at h
      dsimp only at h
      split at h
      next => cases h
      next => cases h; rfl

theorem move_wordList (hc : c.At i (l :: rest)) {kind : TokenKind}
    (h : wordList lines c l kind = .ok y) :
    y.move = if rest[0]?.any (·.hasKind .wordsSep) then .consume 1 else .onward := by
  have h1 : c.peekKind 1 = .ok (rest[0]?.map Lexeme.kind) := hc.peekKind 1
  unfold wordList at h
  rw [h1] at h
  rw [move_of_tokens h]
  have hiff := kind_eq_wordsSep_iff rest[0]?
  simp only [bind, Option.bind_some]
  split_ifs with hs hs' hs'
  · rfl
  · exact absurd (hiff.1 hs) hs'
  · exact absurd (hiff.2 hs') hs
  · rfl

/-- The move of a step depends on kinds and texts alone. -/
theorem move_ofLexeme (hc : c.At i (l :: rest)) (h : ofLexeme lines options state c l = .ok y) :
    y.move = Move.of options i l rest := by
  unfold ofLexeme at h
  unfold Move.of
  cases hrole : Role.of options l.kind with
  | dropped => rw [hrole] at h; cases h; rfl
  | direct kind => rw [hrole] at h; exact move_of_tokens h
  | wordList kind => rw [hrole] at h; exact move_wordList hc h
  | character => rw [hrole] at h; exact move_of_tokens h
  | unknown =>
    rw [hrole] at h
    dsimp only at h
    cases hs : spanOf lines l <;> rw [hs] at h <;> cases h
  | known k =>
    rw [hrole] at h
    dsimp only at h ⊢
    cases k with
    | tstringBeg => exact move_string hc h
    | symbeg => exact move_symbol hc h
    | embdocBeg => exact move_embdoc hc h
    | operator =>
      unfold ofKind at h
      rw [show c.peekKind 1 = .ok (rest[0]?.map Lexeme.kind) from hc.peekKind 1] at h
      exact move_of_tokens h
    | dataEnd => cases h; rfl
    | _ =>
      first
        | exact move_of_tokens h
        | unfold ofKind at h
          dsimp only at h
          cases hs : spanOf lines l <;> rw [hs] at h <;> cases h

end Kind

end Yield

/-! ### Readings -/

variable {lines : LineTable} {options : Options} {state : State}
variable {c : Cursor} {i : ℕ} {l : Lexeme} {ls rest rest' : List Lexeme} {r : Reading}

theorem Cursor.start_at (ls : List Lexeme) : (Cursor.start ls).At 0 ls := ⟨rfl, rfl⟩

/-- What a lexeme yields does not depend on the lexemes before it. -/
theorem map_reading_eq (hc : c.At i (l :: rest)) :
    (Yield.ofLexeme lines options state c l).map (Yield.reading i) =
      reading lines options state (l :: rest) :=
  Yield.map_reading_ofLexeme hc (Cursor.start_at _) (.refl l rest)

theorem reading_congr (h : l.SeesAlike rest rest') :
    reading lines options state (l :: rest) = reading lines options state (l :: rest') :=
  Yield.map_reading_ofLexeme (Cursor.start_at _) (Cursor.start_at _) h

theorem stride_of_reading (h : reading lines options state (l :: rest) = .ok r) :
    r.stride = Stride.of options l rest := by
  rw [reading] at h
  cases hy : Yield.ofLexeme lines options state (.start (l :: rest)) l with
  | error e => rw [hy] at h; cases h
  | ok y =>
    rw [hy] at h
    cases h
    exact congrArg (Move.stride 0) (Yield.move_ofLexeme (Cursor.start_at _) hy)

/-- In another state the lexeme may become other tokens, but the stride is the same. -/
theorem exists_reading_of_state (h : reading lines options state ls = .ok r) (state' : State) :
    ∃ ts, reading lines options state' ls = .ok ⟨ts, r.stride⟩ := by
  cases ls with
  | nil => cases h
  | cons l rest =>
    have hmove : (Yield.ofLexeme lines options state (.start (l :: rest)) l).map Yield.move =
        (Yield.ofLexeme lines options state' (.start (l :: rest)) l).map Yield.move :=
      Yield.ofLexeme_map_move state' _
    rw [reading] at h ⊢
    cases hy : Yield.ofLexeme lines options state (.start (l :: rest)) l with
    | error e => rw [hy] at h; cases h
    | ok y =>
      rw [hy] at h hmove
      cases hy' : Yield.ofLexeme lines options state' (.start (l :: rest)) l with
      | error e => rw [hy'] at hmove; cases hmove
      | ok y' =>
        rw [hy'] at hmove
        cases h
        exact ⟨y'.tokens, by rw [Yield.reading, Except.map, Yield.reading, Except.ok.inj hmove]⟩

/-- The lexemes behind the opener of a string that is one piece. -/
theorem Yield.cases_of_plainRest? {content : Text} {count : ℕ} {last : Lexeme}
    (h : Yield.plainRest? rest[0]? rest[1]? = some (content, count, last)) :
    last.hasKind .tstringEnd = true ∧
      ((∃ tail, rest = last :: tail ∧ content = "" ∧ count = 1) ∨
        ∃ f tail, rest = f :: last :: tail ∧ f.hasKind .tstringContent = true ∧
          content = f.text ∧ count = 2) := by
  obtain ⟨f, hf, h⟩ := Option.bind_eq_some_iff.1 h
  obtain ⟨tail, rfl⟩ := List.head?_eq_some_iff.1 (List.head?_eq_getElem? ▸ hf)
  split_ifs at h with hend
  · cases h
    exact ⟨hend, .inl ⟨tail, rfl, rfl, rfl⟩⟩
  · obtain ⟨e, he, h⟩ := Option.bind_eq_some_iff.1 h
    split_ifs at h with hcontent
    cases h
    rw [List.getElem?_cons_succ, ← List.head?_eq_getElem?] at he
    obtain ⟨tail, rfl⟩ := List.head?_eq_some_iff.1 he
    exact ⟨hcontent.2, .inr ⟨f, tail, rfl, hcontent.1, rfl, rfl⟩⟩

theorem Stride.count_of_wordList {kind : TokenKind} (h : Role.of options l.kind = .wordList kind)
    (rest : List Lexeme) : (Stride.of options l rest).count =
      if rest[0]?.any (·.hasKind .wordsSep) then 1 else 0 := by
  rw [Stride.of, Move.of, h]
  dsimp only
  split_ifs <;> rfl

/-- What a step reads behind its lexeme, by the number of lexemes: nothing, a separator of words,
the rest of a string, whatever stands behind a colon, or the rest of an embedded document. -/
inductive Stride.Folds (l : Lexeme) : List Lexeme → ℕ → Prop
  | nothing (rest : List Lexeme) : Folds l rest 0
  | separator {f : Lexeme} (tail : List Lexeme) (kind : f.hasKind .wordsSep = true) :
      Folds l (f :: tail) 1
  | emptyString {e : Lexeme} (tail : List Lexeme) (ending : e.hasKind .tstringEnd = true) :
      Folds l (e :: tail) 1
  | string {f e : Lexeme} (tail : List Lexeme) (content : f.hasKind .tstringContent = true)
      (ending : e.hasKind .tstringEnd = true) : Folds l (f :: e :: tail) 2
  | symbol (f : Lexeme) (tail : List Lexeme) (opener : l.hasKind .symbeg = true)
      (colon : l.text = ":") : Folds l (f :: tail) 1
  | embdoc {rest : List Lexeme} {k : ℕ} (opener : l.hasKind .embdocBeg = true)
      (ending : embdocEnd? (l :: rest) = some k) : Folds l rest k

theorem Stride.folds (options : Options) (l : Lexeme) (rest : List Lexeme) :
    Folds l rest (Stride.of options l rest).count := by
  cases hrole : Role.of options l.kind with
  | wordList kind =>
    rw [count_of_wordList hrole]
    split_ifs with hs
    · obtain ⟨f, hf, hkind⟩ := (Option.any_eq_true _ _).1 hs
      obtain ⟨tail, rfl⟩ := List.head?_eq_some_iff.1 (List.head?_eq_getElem? ▸ hf)
      exact .separator tail hkind
    · exact .nothing rest
  | known k =>
    have hkind := Role.hasKind_of_known hrole
    rw [Stride.of, Move.of, hrole]
    cases k with
    | tstringBeg =>
      dsimp only
      split
      next hplain =>
        split_ifs at hplain
        obtain ⟨hend, ⟨tail, rfl, -, rfl⟩ | ⟨f, tail, rfl, hf, -, rfl⟩⟩ :=
          Yield.cases_of_plainRest? hplain
        · exact .emptyString tail hend
        · exact .string tail hf hend
      next => exact .nothing rest
    | symbeg =>
      dsimp only
      split_ifs with hcolon
      · obtain ⟨f, tail, rfl⟩ := List.exists_cons_of_ne_nil hcolon.2
        exact .symbol f tail hkind hcolon.1
      · exact .nothing rest
    | embdocBeg =>
      have hcount : ((0 : Int) + ((embdocEnd? (l :: rest)).getD 0 : ℕ) - 0).toNat =
          (embdocEnd? (l :: rest)).getD 0 := by omega
      simp only [Move.stride, Stride.count, hcount]
      cases hend : embdocEnd? (l :: rest) with
      | none => exact .nothing rest
      | some k => exact .embdoc hkind hend
    | comment =>
      dsimp only
      split_ifs <;> exact .nothing rest
    | _ => exact .nothing rest
  | _ =>
    rw [Stride.of, Move.of, hrole]
    exact .nothing rest

/-- A step reads lexemes that are there. -/
theorem Stride.count_of_le (options : Options) (l : Lexeme) (rest : List Lexeme) :
    (Stride.of options l rest).count ≤ rest.length := by
  have hfolds := Stride.folds options l rest
  generalize (Stride.of options l rest).count = count at *
  cases hfolds with
  | nothing => exact Nat.zero_le _
  | separator tail kind => exact Nat.le_add_left ..
  | emptyString tail ending => exact Nat.le_add_left ..
  | string tail content ending => exact Nat.le_add_left ..
  | symbol f tail opener colon => exact Nat.le_add_left ..
  | embdoc opener ending => exact Nat.lt_succ_iff.1 (List.findIdx?_eq_some_iff_getElem.1 ending).1

theorem count_le_of_reading (h : reading lines options state (l :: rest) = .ok r) :
    r.stride.count ≤ rest.length :=
  stride_of_reading h ▸ Stride.count_of_le options l rest

end RubyTokens
