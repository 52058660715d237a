import RubyTokens.Proofs.Conversion.Placement
import RubyTokens.Proofs.Conversion.Walk

/-! Signs of integers. The options decide whether a plus in front of an integer is a token of its
own. The two conversions of the same lexemes go through the same places and states, and fail at the
same lexeme if they fail: a plus changes neither the value nor what lies in the source. So they
differ in shape only, and joining each plus to its integer leads from the one result to the other.
-/

namespace RubyTokens

/-! ### Joining a plus and its integer -/

/-- Whether the token is a plus in front of a number. -/
def Token.isPlus (t : Token) : Bool := t.kind = .unaryNum ∧ t.payload = .text "+"

/-- Each plus that has an integer right behind it becomes one integer with it, over both ranges. -/
def joinSigns : List Token → List Token
  | t :: u :: ts =>
    if t.isPlus ∧ u.kind = .integer then
      ⟨.integer, u.payload, t.span.cover u.span⟩ :: joinSigns ts
    else t :: joinSigns (u :: ts)
  | ts => ts

theorem joinSigns_pair (payload : Payload) (a b : Span) :
    joinSigns [⟨.unaryNum, .text "+", a⟩, ⟨.integer, payload, b⟩] =
      [⟨.integer, payload, a.cover b⟩] := by
  simp [joinSigns, Token.isPlus]

/-- No plus waits at the end for an integer. -/
def Settled (ts : List Token) : Prop := ∀ t ∈ ts.getLast?, t.isPlus = false

theorem Settled.append {ts us : List Token} (ht : Settled ts) (hu : Settled us) :
    Settled (ts ++ us) := by
  intro t h
  rw [List.getLast?_append] at h
  rcases Option.or_eq_some_iff.1 h with h | ⟨-, h⟩
  · exact hu t h
  · exact ht t h

theorem Settled.of_cons {t : Token} {ts : List Token} (h : Settled (t :: ts)) : Settled ts :=
  fun x hx => h x (by rw [List.getLast?_cons, Option.mem_def.1 hx]; rfl)

theorem joinSigns_append {ts : List Token} (h : Settled ts) (us : List Token) :
    joinSigns (ts ++ us) = joinSigns ts ++ joinSigns us := by
  fun_induction joinSigns ts with
  | case1 t u ts hplus ih =>
    rw [List.cons_append, List.cons_append, joinSigns, if_pos hplus, ih h.of_cons.of_cons,
      List.cons_append]
  | case2 t u ts hplus ih =>
    rw [List.cons_append, List.cons_append, joinSigns, if_neg hplus, ← List.cons_append,
      ih h.of_cons, List.cons_append]
  | case3 ts hshort =>
    match ts, us with
    | [], us => rfl
    | [t], [] => rfl
    | [t], u :: us =>
      have hplus : t.isPlus = false := h t rfl
      simp [joinSigns, hplus]
    | t :: u :: ts, us => exact absurd rfl (hshort t u ts)

/-- No token is a plus. -/
def PlusFree (ts : List Token) : Prop := ∀ t ∈ ts, t.isPlus = false

theorem plusFree_nil : PlusFree [] := fun _ h => absurd h List.not_mem_nil

theorem plusFree_singleton {t : Token} (h : t.isPlus = false) : PlusFree [t] :=
  fun _ hx => List.mem_singleton.1 hx ▸ h

theorem PlusFree.settled {ts : List Token} (h : PlusFree ts) : Settled ts :=
  fun t ht => h t (List.mem_of_getLast? ht)

/-- Without a plus there is nothing to join. -/
theorem PlusFree.joinSigns_eq {ts : List Token} (h : PlusFree ts) : joinSigns ts = ts := by
  induction ts with
  | nil => rfl
  | cons t ts ih =>
    have hsplit := joinSigns_append (plusFree_singleton (h t List.mem_cons_self)).settled ts
    rw [List.singleton_append, ih fun x hx => h x (List.mem_cons_of_mem _ hx)] at hsplit
    exact hsplit

/-! ### Integers with a plus -/

namespace Lexeme

/-- Whether the lexeme is an integer with a sign behind a plus. -/
def isDoubleSigned (l : Lexeme) : Bool :=
  l.hasKind .integer && match l.text.points with
    | .char '+' :: .char c :: _ => c = '+' || c = '-'
    | _ => false

end Lexeme

/-- A plus in front changes neither whether a text without a sign is an integer, nor the value. -/
theorem IntegerLiteral.toOption_parse_dropFirst {text : Text} {ps : List CodePoint}
    (h : text.points = .char '+' :: ps) (hplus : ps.head? ≠ some (.char '+'))
    (hminus : ps.head? ≠ some (.char '-')) :
    (parse (dropFirst text)).toOption = (parse text).toOption := by
  obtain ⟨points⟩ := text
  subst h
  have hhead : ∀ c : Char, c ≠ CodePoint.replacement → ps.head? ≠ some (.char c) →
      (ps.map CodePoint.toChar).head? ≠ some c := by
    intro c hc hne heq
    rw [List.head?_map] at heq
    obtain ⟨p, hp, rfl⟩ := Option.map_eq_some_iff.1 heq
    cases p with
    | char c => exact hne hp
    | half i => exact hc rfl
  have hsign : splitSign (Text.chars ⟨ps⟩) = (false, Text.chars ⟨ps⟩) :=
    splitSign_of_head? (hhead _ (by decide) hplus) (hhead _ (by decide) hminus)
  have hsigned : splitSign (Text.chars ⟨.char '+' :: ps⟩) = (false, Text.chars ⟨ps⟩) := rfl
  have hobscured : Text.obscured ⟨.char '+' :: ps⟩ = Text.obscured ⟨ps⟩ :=
    List.filter_cons_of_neg (by decide)
  have hdrop : dropFirst ⟨.char '+' :: ps⟩ = ⟨ps⟩ := rfl
  rw [hdrop, parse, parse, hsign, hsigned, hobscured]
  dsimp only
  split_ifs <;> rfl

namespace Yield

variable {lines : LineTable} {l : Lexeme} {ts : List Token} {r : Span} {shift n : ℕ}

theorem spanAt_eq_ok_iff : spanAt lines l shift n = .ok r ↔
    ∃ o, lines.offset l.line (l.column + shift) = .ok o ∧
      o + n ≤ lines.source.byteLength ∧ r = .sized o n := by
  rw [← LineTable.span_eq_ok_iff]
  exact ⟨ok_of_mapError, fun h => by rw [spanAt, h]; rfl⟩

theorem spanOf_eq_ok_iff : spanOf lines l = .ok r ↔
    ∃ x : String, l.text = x ∧ spanAt lines l 0 x.utf8ByteSize = .ok r := by
  refine ⟨exists_of_spanOf, fun ⟨x, hx, h⟩ => ?_⟩
  rw [spanOf, Lexeme.byteLength, hx, Text.string_ofString]
  exact h

/-- An integer that stays whole. -/
theorem integer_false_eq_ok_iff : integer lines false l = .ok ts ↔
    ∃ (n : Int) (x : String) (o : ℕ), IntegerLiteral.parse l.text = .ok n ∧ l.text = x ∧
      lines.offset l.line l.column = .ok o ∧ o + x.utf8ByteSize ≤ lines.source.byteLength ∧
      ts = [⟨.integer, .integer n, .sized o x.utf8ByteSize⟩] := by
  rw [integer, if_neg (by simp)]
  constructor
  · intro h
    obtain ⟨n, hn, h⟩ := exists_of_bind h
    obtain ⟨span, hspan, h⟩ := exists_of_bind h
    obtain ⟨x, hx, hat⟩ := exists_of_spanOf hspan
    obtain ⟨o, ho, hle, rfl⟩ := spanAt_eq_ok_iff.1 hat
    rw [Int.natCast_zero, Int.add_zero] at ho
    cases h
    exact ⟨n, x, o, ok_of_mapError hn, hx, ho, hle, rfl⟩
  · rintro ⟨n, x, o, hn, hx, ho, hle, rfl⟩
    have hspan : spanOf lines l = .ok (.sized o x.utf8ByteSize) :=
      spanOf_eq_ok_iff.2 ⟨x, hx, spanAt_eq_ok_iff.2 ⟨o, by simpa using ho, hle, rfl⟩⟩
    simp only [valued, single, hn, hspan, bind, Except.bind, Except.mapError, pure, Except.pure]

theorem size_pos_of_plus {x : String} (h : l.text.points.head? = some (.char '+'))
    (hx : l.text = x) : 1 ≤ x.utf8ByteSize := by
  obtain ⟨digits, rfl⟩ := Text.exists_of_head? (hx ▸ h)
  rw [String.utf8ByteSize_append, String.utf8ByteSize_singleton]
  exact Nat.le_add_right 1 _

/-- An integer that is split behind its plus. -/
theorem integer_true_eq_ok_iff (h : l.text.points.head? = some (.char '+')) :
    integer lines true l = .ok ts ↔
    ∃ (n : Int) (x : String) (o : ℕ), IntegerLiteral.parse (dropFirst l.text) = .ok n ∧
      l.text = x ∧ lines.offset l.line l.column = .ok o ∧
      o + x.utf8ByteSize ≤ lines.source.byteLength ∧
      ts = [⟨.unaryNum, .text "+", .sized o 1⟩,
        ⟨.integer, .integer n, .sized (o + 1) (x.utf8ByteSize - 1)⟩] := by
  rw [integer, if_pos ⟨h, rfl⟩]
  constructor
  · intro hts
    obtain ⟨first, hfirst, hts⟩ := exists_of_bind hts
    obtain ⟨n, hn, hts⟩ := exists_of_bind hts
    obtain ⟨length, hlength, hts⟩ := exists_of_bind hts
    obtain ⟨second, hsecond, hts⟩ := exists_of_bind hts
    cases hts
    obtain ⟨x, hx, rfl⟩ := exists_of_byteLength (ok_of_mapError hlength)
    obtain ⟨o, ho, -, rfl⟩ := spanAt_eq_ok_iff.1 hfirst
    rw [Int.natCast_zero, Int.add_zero] at ho
    obtain ⟨o', ho', hle, rfl⟩ := spanAt_eq_ok_iff.1 hsecond
    rw [LineTable.offset_add ho 1] at ho'
    cases ho'
    have hpos := size_pos_of_plus h hx
    exact ⟨n, x, o, ok_of_mapError hn, hx, ho, by omega, rfl⟩
  · rintro ⟨n, x, o, hn, hx, ho, hle, rfl⟩
    have hpos := size_pos_of_plus h hx
    have hfirst : spanAt lines l 0 1 = .ok (.sized o 1) :=
      spanAt_eq_ok_iff.2 ⟨o, by simpa using ho, by omega, rfl⟩
    have hsecond : spanAt lines l 1 (x.utf8ByteSize - 1) =
        .ok (.sized (o + 1) (x.utf8ByteSize - 1)) :=
      spanAt_eq_ok_iff.2 ⟨o + 1, LineTable.offset_add ho 1, by omega, rfl⟩
    have hlength : l.byteLength = .ok x.utf8ByteSize := by
      rw [Lexeme.byteLength, hx, Text.string_ofString]
      rfl
    rw [hfirst, hn, hlength]
    simp only [bind, Except.bind, Except.mapError, hsecond, pure, Except.pure]

/-- Split or not, the integer is there or not, and joined to its plus it is the same token. -/
theorem integer_joined_iff (h : l.hasKind .integer = true) (hd : l.isDoubleSigned = false) :
    integer lines false l = .ok ts ↔ ∃ us, integer lines true l = .ok us ∧ ts = joinSigns us := by
  by_cases hsign : l.text.points.head? = some (.char '+')
  · obtain ⟨ps, hps⟩ := List.head?_eq_some_iff.1 hsign
    have hsecond : ∀ c : Char, c = '+' ∨ c = '-' → ps.head? ≠ some (.char c) := by
      intro c hc hhead
      obtain ⟨rest, rfl⟩ := List.head?_eq_some_iff.1 hhead
      rw [Lexeme.isDoubleSigned, h, hps] at hd
      rcases hc with rfl | rfl <;> cases hd
    have hparse (n : Int) : IntegerLiteral.parse (dropFirst l.text) = .ok n ↔
        IntegerLiteral.parse l.text = .ok n := by
      have hsame := IntegerLiteral.toOption_parse_dropFirst hps (hsecond _ (.inl rfl))
        (hsecond _ (.inr rfl))
      cases hp : IntegerLiteral.parse (dropFirst l.text) <;>
        cases hq : IntegerLiteral.parse l.text <;> rw [hp, hq] at hsame <;> cases hsame <;> simp
    have hjoin (n : Int) (x : String) (o : ℕ) (hx : l.text = x) :
        joinSigns [⟨.unaryNum, .text "+", .sized o 1⟩,
          ⟨.integer, .integer n, .sized (o + 1) (x.utf8ByteSize - 1)⟩] =
        [⟨.integer, .integer n, .sized o x.utf8ByteSize⟩] := by
      have hpos := size_pos_of_plus hsign hx
      have hcover : (Span.sized o 1).cover (.sized (o + 1) (x.utf8ByteSize - 1)) =
          .sized o x.utf8ByteSize := by
        simp only [Span.cover, Span.sized, Span.mk.injEq]
        omega
      rw [joinSigns_pair, hcover]
    rw [integer_false_eq_ok_iff]
    constructor
    · rintro ⟨n, x, o, hn, hx, ho, hle, rfl⟩
      exact ⟨_, (integer_true_eq_ok_iff hsign).2 ⟨n, x, o, (hparse n).2 hn, hx, ho, hle, rfl⟩,
        (hjoin n x o hx).symm⟩
    · rintro ⟨us, hus, rfl⟩
      obtain ⟨n, x, o, hn, hx, ho, hle, rfl⟩ := (integer_true_eq_ok_iff hsign).1 hus
      exact ⟨n, x, o, (hparse n).1 hn, hx, ho, hle, hjoin n x o hx⟩
  · have hwhole : integer lines true l = integer lines false l := by
      rw [integer, integer, if_neg fun h => hsign h.1, if_neg fun h => hsign h.1]
    rw [hwhole]
    constructor
    · intro hts
      obtain ⟨n, x, o, -, -, -, -, rfl⟩ := integer_false_eq_ok_iff.1 hts
      exact ⟨_, hts, rfl⟩
    · rintro ⟨us, hus, rfl⟩
      obtain ⟨n, x, o, -, -, -, -, rfl⟩ := integer_false_eq_ok_iff.1 hus
      exact hus

end Yield

/-! ### Lexemes without a plus of their own -/

/-- Whatever a computation returns satisfies a property. -/
def Returns {α : Type} (P : α → Prop) (x : Except Failure α) : Prop := ∀ a, x = .ok a → P a

section

variable {α β : Type} {P : β → Prop} {b : β}

theorem returns_ok (h : P b) : Returns P (.ok b) := fun _ he => Except.ok.inj he ▸ h

theorem returns_error (f : Failure) : Returns P (.error f) := nofun

theorem returns_bind {x : Except Failure α} {g : α → Except Failure β}
    (h : ∀ a, Returns P (g a)) : Returns P (x >>= g) := by
  intro b hb
  obtain ⟨a, -, hb⟩ := exists_of_bind hb
  exact h a b hb

end

namespace Yield

variable {lines : LineTable} {options : Options} {state : State} {c : Cursor} {l : Lexeme}
variable {kind : TokenKind} {payload : Payload}

theorem isPlus_of_kind {span : Span} (h : kind ≠ .unaryNum) :
    Token.isPlus ⟨kind, payload, span⟩ = false :=
  decide_eq_false fun hplus => h hplus.1

theorem plusFree_single (h : kind ≠ .unaryNum) : Returns PlusFree (single lines l kind payload) :=
  returns_bind fun _ => returns_ok (plusFree_singleton (isPlus_of_kind h))

theorem plusFree_valued {α : Type} {f : α → Payload} {value : Except LiteralError α}
    (h : kind ≠ .unaryNum) : Returns PlusFree (valued lines l kind f value) :=
  returns_bind fun _ => plusFree_single h

theorem plusFree_covering {start : Span} {closer : Lexeme} {text : Text} (h : kind ≠ .unaryNum) :
    Returns PlusFree (covering lines start closer kind text) :=
  returns_bind fun _ => returns_ok (plusFree_singleton (isPlus_of_kind h))

theorem plusFree_chomped (h : kind ≠ .unaryNum) : Returns PlusFree (chomped lines l kind) :=
  returns_bind fun _ => returns_bind fun _ =>
    returns_ok (plusFree_singleton (isPlus_of_kind h))

theorem plusFree_identifier : Returns PlusFree (identifier lines l) :=
  plusFree_single (by split_ifs <;> nofun)

theorem plusFree_keyword : Returns PlusFree (keyword lines state l) := by
  unfold keyword
  split
  next kind hkind =>
    obtain ⟨text, -, htext⟩ := Option.bind_eq_some_iff.1 hkind
    exact plusFree_single (of_keywordKind? (P := (· ≠ .unaryNum)) (by decide) (by decide) htext)
  next => exact returns_bind fun _ => returns_error _

/-- A sign in front of a number is a minus. -/
theorem eq_minus_of_operatorKind? {following : Option Text} {text : String} {payload : Text}
    (h : operatorKind? state following text = some (.unaryNum, payload)) :
    payload = Text.ofString "-" := by
  have hoperators : ∀ p ∈ operators, p.2 ≠ .unaryNum := by decide
  unfold operatorKind? at h
  split_ifs at h with hcolon hminus
  · have hkind := congrArg Prod.fst (Option.some.inj h)
    unfold Ambiguous.colon2 at hkind
    split_ifs at hkind
  · rw [← (Prod.mk.inj (Option.some.inj h)).2, hminus]
  · have hkind := congrArg Prod.fst (Option.some.inj h)
    unfold Ambiguous.ampersand at hkind
    split_ifs at hkind
  · have hkind := congrArg Prod.fst (Option.some.inj h)
    unfold Ambiguous.range at hkind
    split_ifs at hkind
  · cases h
  · obtain ⟨kind, hkind, heq⟩ := Option.map_eq_some_iff.1 h
    cases heq
    exact absurd rfl (hoperators _ (mem_of_lookup hkind))

theorem plusFree_operator (following : Option Text) :
    Returns PlusFree (operator lines state following l) := by
  unfold operator
  split
  next kind payload hkind =>
    obtain ⟨text, -, hkind⟩ := Option.bind_eq_some_iff.1 hkind
    have hminus : Payload.text (Text.ofString "-") ≠ .text (Text.ofString "+") := by decide
    refine returns_bind fun span => returns_ok (plusFree_singleton (decide_eq_false ?_))
    rintro ⟨rfl, hpayload⟩
    rw [eq_minus_of_operatorKind? hkind] at hpayload
    exact hminus hpayload
  next => exact returns_bind fun _ => returns_error _

theorem plusFree_backReference : Returns PlusFree (backReference lines l) :=
  returns_bind fun number => by cases number <;> exact plusFree_single nofun

theorem plusFree_regexpEnd : Returns PlusFree (regexpEnd lines l) := by
  unfold regexpEnd
  split
  · exact returns_error _
  · refine returns_bind fun _ => returns_bind fun _ => returns_bind fun _ => returns_bind fun _ =>
      returns_ok fun t ht => ?_
    rcases List.mem_pair.1 ht with rfl | rfl <;> exact isPlus_of_kind nofun

theorem plusFree_yield {ts : Except Failure (List Token)} {move : Move} (h : Returns PlusFree ts) :
    Returns (PlusFree ·.tokens) (do return (⟨← ts, move⟩ : Yield) : Except Failure Yield) := by
  intro y hy
  exact h _ (exists_tokens hy)

theorem plusFree_string : Returns (PlusFree ·.tokens) (string lines c l) := by
  refine returns_bind fun start => returns_bind fun following => returns_bind fun closer => ?_
  split
  · exact plusFree_yield (plusFree_covering nofun)
  · exact returns_ok (plusFree_singleton (isPlus_of_kind nofun))

theorem plusFree_symbol : Returns (PlusFree ·.tokens) (symbol lines c l) := by
  refine returns_bind fun start => returns_bind fun following => ?_
  split
  · exact plusFree_yield (plusFree_covering nofun)
  · exact returns_ok (plusFree_singleton (isPlus_of_kind nofun))

theorem plusFree_embdoc : Returns (PlusFree ·.tokens) (embdoc lines c l) := by
  refine returns_bind fun ending => ?_
  cases ending with
  | none => exact returns_error _
  | some index => exact returns_bind fun start => plusFree_yield (plusFree_covering nofun)

theorem plusFree_ofKind {k : LexemeKind} (hk : k ≠ .integer) :
    Returns (PlusFree ·.tokens) (ofKind lines options state c l k) := by
  cases k with
  | integer => exact absurd rfl hk
  | identifier => exact plusFree_yield plusFree_identifier
  | keyword => exact plusFree_yield plusFree_keyword
  | operator => exact returns_bind fun _ => plusFree_yield (plusFree_operator _)
  | float => exact plusFree_yield (plusFree_valued nofun)
  | rational => exact plusFree_yield (plusFree_valued nofun)
  | imaginary => exact plusFree_yield (plusFree_valued nofun)
  | backref => exact plusFree_yield plusFree_backReference
  | lbrace =>
    exact plusFree_yield (plusFree_single (by unfold Ambiguous.lbrace; split_ifs <;> nofun))
  | lbracket =>
    exact plusFree_yield (plusFree_single (by unfold Ambiguous.lbracket; split_ifs <;> nofun))
  | lparen =>
    exact plusFree_yield (plusFree_single (by unfold Ambiguous.lparen; split_ifs <;> nofun))
  | comment => exact plusFree_yield (plusFree_chomped nofun)
  | heredocEnd => exact plusFree_yield (plusFree_chomped nofun)
  | regexpEnd => exact plusFree_yield plusFree_regexpEnd
  | tstringBeg => exact plusFree_string
  | symbeg => exact plusFree_symbol
  | embdocBeg => exact plusFree_embdoc
  | dataEnd => exact returns_ok plusFree_nil
  | _ =>
    first
      | exact plusFree_yield (plusFree_single nofun)
      | exact returns_bind fun _ => returns_error _

/-- Only an integer becomes a plus. -/
theorem plusFree_ofLexeme (h : Role.of options l.kind ≠ .known .integer) :
    Returns (PlusFree ·.tokens) (ofLexeme lines options state c l) := by
  have hdirect : ∀ k t, LexemeKind.direct? k = some t → t ≠ .unaryNum := fun k t ht => by
    cases k <;> cases ht <;> nofun
  have hlist : ∀ k t, LexemeKind.wordList? k = some t → t ≠ .unaryNum := fun k t ht => by
    cases k <;> cases ht <;> nofun
  unfold ofLexeme
  cases hrole : Role.of options l.kind with
  | dropped => exact returns_ok plusFree_nil
  | direct kind =>
    obtain ⟨k, -, hk⟩ := Option.bind_eq_some_iff.1 (Role.direct?_of_direct hrole)
    exact plusFree_yield (plusFree_single (hdirect k kind hk))
  | wordList kind =>
    obtain ⟨k, -, hk⟩ := Option.bind_eq_some_iff.1 (Role.wordList?_of_wordList hrole)
    exact returns_bind fun _ => plusFree_yield (plusFree_single (hlist k kind hk))
  | character => exact plusFree_yield (plusFree_single nofun)
  | known k => exact plusFree_ofKind fun hk => h (hk ▸ hrole)
  | unknown => exact returns_bind fun _ => returns_error _

end Yield

/-! ### Steps side by side -/

/-- The options that split signed integers, or do not. -/
def Options.splitting (split : Bool) (options : Options) : Options :=
  { options with splitSignedIntegers := split }

def Setting.splitting (split : Bool) (s : Setting) : Setting :=
  { s with options := s.options.splitting split }

/-- The reading with each plus joined to its integer. -/
def Reading.joined (r : Reading) : Reading := { r with tokens := joinSigns r.tokens }

section

variable {lines : LineTable} {options : Options} {state : State} {l : Lexeme} {rest : List Lexeme}
variable {r : Reading}

theorem Role.of_splitting (split : Bool) (options : Options) (kind : Text) :
    Role.of (options.splitting split) kind = Role.of options kind := rfl

theorem Yield.ofLexeme_splitting (split : Bool) (h : Role.of options l.kind ≠ .known .integer)
    (c : Cursor) : ofLexeme lines (options.splitting split) state c l =
      ofLexeme lines options state c l := by
  unfold ofLexeme
  rw [Role.of_splitting]
  cases hrole : Role.of options l.kind with
  | known k =>
    dsimp only
    cases k with
    | integer => exact absurd hrole h
    | _ => rfl
  | _ => rfl

theorem reading_integer (h : Role.of options l.kind = .known .integer) :
    reading lines options state (l :: rest) =
      (Yield.integer lines options.splitSignedIntegers l).map (⟨·, .past 0⟩) := by
  rw [reading, Yield.ofLexeme, h]
  dsimp only [Yield.ofKind]
  cases Yield.integer lines options.splitSignedIntegers l <;> rfl

theorem plusFree_of_reading (h : Role.of options l.kind ≠ .known .integer)
    (hr : reading lines options state (l :: rest) = .ok r) : PlusFree r.tokens := by
  rw [reading] at hr
  cases hy : Yield.ofLexeme lines options state (.start (l :: rest)) l with
  | error e => rw [hy] at hr; cases hr
  | ok y =>
    rw [hy] at hr
    cases hr
    exact Yield.plusFree_ofLexeme h y hy

/-- A plus that a lexeme becomes has its integer behind it. -/
theorem settled_of_reading (hr : reading lines options state (l :: rest) = .ok r) :
    Settled r.tokens := by
  by_cases h : Role.of options l.kind = .known .integer
  · rw [reading_integer h] at hr
    cases hts : Yield.integer lines options.splitSignedIntegers l with
    | error e => rw [hts] at hr; cases hr
    | ok ts =>
      rw [hts] at hr
      cases hr
      obtain ⟨t, ht, hkind⟩ : ∃ t, ts.getLast? = some t ∧ t.kind = .integer := by
        unfold Yield.integer at hts
        split_ifs at hts
        · obtain ⟨_, -, hts⟩ := exists_of_bind hts
          obtain ⟨_, -, hts⟩ := exists_of_bind hts
          obtain ⟨_, -, hts⟩ := exists_of_bind hts
          obtain ⟨_, -, hts⟩ := exists_of_bind hts
          cases hts
          exact ⟨_, rfl, rfl⟩
        · obtain ⟨_, -, hts⟩ := exists_of_bind hts
          obtain ⟨_, -, hts⟩ := exists_of_bind hts
          cases hts
          exact ⟨_, rfl, rfl⟩
      intro u hu
      cases Option.some.inj (ht.symm.trans hu)
      exact Yield.isPlus_of_kind (hkind ▸ nofun)
  · exact (plusFree_of_reading h hr).settled

/-- A step that keeps integers whole reads what a step that splits them reads, with each plus joined
to its integer; and where one of them fails, the other one does. -/
theorem reading_joined_iff (hd : l.isDoubleSigned = false) {r' : Reading} :
    reading lines (options.splitting false) state (l :: rest) = .ok r' ↔
      ∃ r, reading lines (options.splitting true) state (l :: rest) = .ok r ∧ r' = r.joined := by
  by_cases h : Role.of options l.kind = .known .integer
  · have hmap (split : Bool) (r : Reading) :
        reading lines (options.splitting split) state (l :: rest) = .ok r ↔
          ∃ ts, Yield.integer lines split l = .ok ts ∧ r = ⟨ts, .past 0⟩ := by
      rw [reading_integer (Role.of_splitting split options l.kind ▸ h), Options.splitting]
      cases Yield.integer lines split l <;> simp [Except.map, eq_comm]
    simp only [hmap, Yield.integer_joined_iff (Role.hasKind_of_known h) hd]
    constructor
    · rintro ⟨_, ⟨us, hus, rfl⟩, rfl⟩
      exact ⟨_, ⟨us, hus, rfl⟩, rfl⟩
    · rintro ⟨_, ⟨us, hus, rfl⟩, rfl⟩
      exact ⟨_, ⟨us, hus, rfl⟩, rfl⟩
  · have hsame (split : Bool) : reading lines (options.splitting split) state (l :: rest) =
        reading lines options state (l :: rest) := by
      rw [reading, reading, Yield.ofLexeme_splitting split h]
    rw [hsame, hsame]
    have hjoined {r : Reading} (hr : reading lines options state (l :: rest) = .ok r) :
        r.joined = r := by
      rw [Reading.joined, (plusFree_of_reading h hr).joinSigns_eq]
    constructor
    · exact fun hr => ⟨r', hr, (hjoined hr).symm⟩
    · rintro ⟨r, hr, rfl⟩
      rw [hjoined hr, hr]

end

namespace Progress

/-- The second run keeps integers whole that the first one splits, and is otherwise the same. -/
structure Joined (ls : List Lexeme) (p q : Progress) : Prop where
  place : ∃ w : Place, p.IsAt ls w ∧ q.IsAt ls w
  state : q.state = p.state
  tokens : q.tokens = joinSigns p.tokens
  settled : Settled p.tokens

namespace Joined

variable {s : Setting} {ls : List Lexeme} {p p' q : Progress}

theorem start (ls : List Lexeme) : Joined ls (.start ls) (.start ls) where
  place := ⟨_, start_isAt ls, start_isAt ls⟩
  state := rfl
  tokens := plusFree_nil.joinSigns_eq.symm
  settled := plusFree_nil.settled

theorem isExhausted_eq (h : Joined ls p q) : q.cursor.isExhausted = p.cursor.isExhausted := by
  obtain ⟨w, hp, hq⟩ := h.place
  rw [show q.cursor = w.cursor ls from hq, show p.cursor = w.cursor ls from hp]

/-- Where one run makes a step, the other one does. -/
theorem step (hd : ∀ l ∈ ls, l.isDoubleSigned = false) (h : Joined ls p q)
    (hs : p.step (s.splitting true) = .ok p') :
    ∃ q', q.step (s.splitting false) = .ok q' ∧ Joined ls p' q' := by
  obtain ⟨w, hp, hq⟩ := h.place
  obtain ⟨l, rest, r, hdrop, hr, rfl⟩ := exists_of_step hp hs
  have hl : l ∈ ls := List.mem_of_mem_drop (hdrop ▸ List.mem_cons_self)
  have hr' : reading s.lines (s.options.splitting false) q.state (l :: rest) = .ok r.joined :=
    (reading_joined_iff (hd l hl)).2 ⟨r, h.state ▸ hr, rfl⟩
  have hs' : q.step (s.splitting false) =
      .ok (q.after (s.splitting false) ls w l rest r.joined) :=
    (step_eq hq hdrop).trans (congrArg _ hr')
  refine ⟨_, hs', ⟨w.next ls (r.stride.inOrder s.order), after_isAt, after_isAt⟩, rfl, ?_, ?_⟩
  · rw [tokens_after, tokens_after, h.tokens, joinSigns_append h.settled]
    rfl
  · rw [tokens_after]
    exact h.settled.append (settled_of_reading hr)

/-- Where one run fails, the other one does. -/
theorem step_error {f : Failure} (hd : ∀ l ∈ ls, l.isDoubleSigned = false) (h : Joined ls p q)
    (hs : p.step (s.splitting true) = .error f) :
    ∃ f', q.step (s.splitting false) = .error f' := by
  obtain ⟨w, hp, hq⟩ := h.place
  cases hs' : q.step (s.splitting false) with
  | error f' => exact ⟨f', rfl⟩
  | ok q' =>
    obtain ⟨l, rest, r', hdrop, hr', rfl⟩ := exists_of_step hq hs'
    have hl : l ∈ ls := List.mem_of_mem_drop (hdrop ▸ List.mem_cons_self)
    obtain ⟨r, hr, -⟩ := (reading_joined_iff (hd l hl)).1 hr'
    have hstep : p.step (s.splitting true) = .ok (p.after (s.splitting true) ls w l rest r) :=
      (step_eq hp hdrop).trans (congrArg _ (h.state ▸ hr))
    cases hs.symm.trans hstep

/-- Both runs stay side by side, and if one of them finishes, the other one does. -/
theorem run (s : Setting) (hd : ∀ l ∈ ls, l.isDoubleSigned = false) (h : Joined ls p q) (fuel : ℕ) :
    ((Progress.run (s.splitting false) fuel q).2 = .finished ↔
      (Progress.run (s.splitting true) fuel p).2 = .finished) ∧
    Joined ls (Progress.run (s.splitting true) fuel p).1
      (Progress.run (s.splitting false) fuel q).1 := by
  induction fuel generalizing p q with
  | zero =>
    simp only [Progress.run, h.isExhausted_eq, true_and]
    exact h
  | succ fuel ih =>
    by_cases he : p.cursor.isExhausted = true
    · rw [run_of_isExhausted he, run_of_isExhausted (h.isExhausted_eq.trans he)]
      exact ⟨.rfl, h⟩
    have he : p.cursor.isExhausted = false := by simpa using he
    have he' := h.isExhausted_eq.trans he
    cases hs : p.step (s.splitting true) with
    | error f =>
      obtain ⟨f', hs'⟩ := h.step_error hd hs
      rw [run_succ_of_failure he hs, run_succ_of_failure he' hs']
      exact ⟨by simp, h⟩
    | ok next =>
      obtain ⟨next', hs', hnext⟩ := h.step hd hs
      rw [run_succ_of_step he hs, run_succ_of_step he' hs']
      exact ih hnext

end Joined

end Progress

namespace Job

/-- The job with integers split, or not. -/
def splitting (split : Bool) (j : Job) : Job := { j with options := j.options.splitting split }

/-- Whether integers are split or kept whole changes the shape of the tokens only: one conversion
gives tokens if, and only if, the other one does, and joining each plus to its integer leads from
the one result to the other. No integer may have a sign behind its plus. -/
theorem outcome_splitting_iff {j : Job} {us : List Token}
    (hd : ∀ l ∈ j.lexemes, l.isDoubleSigned = false) :
    (j.splitting false).outcome = .tokens us ↔
      ∃ ts, (j.splitting true).outcome = .tokens ts ∧ us = joinSigns ts := by
  have hrun (split : Bool) : (j.splitting split).run = Progress.run (j.setting.splitting split)
      (stepLimit j.lexemes.length) (.start j.lexemes) := rfl
  have hstart := Progress.Joined.start j.lexemes
  obtain ⟨hend, hjoined⟩ := hstart.run j.setting hd (stepLimit j.lexemes.length)
  simp only [outcome_eq_tokens_iff, hrun]
  constructor
  · rintro ⟨hwhole, rfl⟩
    exact ⟨_, ⟨hend.1 hwhole, rfl⟩, hjoined.tokens⟩
  · rintro ⟨_, ⟨hsplit, rfl⟩, rfl⟩
    exact ⟨hend.2 hsplit, hjoined.tokens⟩

theorem outcome_splitting_iff_signedAddition :
    (∀ l ∈ signedAddition.lexemes, l.isDoubleSigned = false) ∧
      (signedAddition.splitting true).outcome = .tokens signedAdditionTokens ∧
      (signedAddition.splitting false).outcome = .tokens [
        ⟨.identifier, .text "a", .sized 0 1⟩, ⟨.opAsgn, .text "+", .sized 2 2⟩,
        ⟨.integer, .integer 1, .sized 5 2⟩, ⟨.comment, .text "# é", .sized 8 4⟩] := by
  have hd : ∀ l ∈ signedAddition.lexemes, l.isDoubleSigned = false := by decide +kernel
  have h : (signedAddition.splitting true).outcome = .tokens signedAdditionTokens := by
    decide +kernel
  exact ⟨hd, h, (outcome_splitting_iff hd).2 ⟨_, h, by decide +kernel⟩⟩

end Job

end RubyTokens
