import RubyTokens.Proofs.Conversion.Reading
import RubyTokens.Proofs.Source.Tiling

/-! What the tokens of a step stand for. A step cuts the text of its lexeme into pieces, one behind
the other, or makes one token of it and the lexemes that it reads behind it. What a token carries is
decided by its kind and by the text that it stands for, whichever lexeme that comes from. -/

namespace RubyTokens

/-! ### What a token carries -/

namespace TokenKind

/-- Whether a token of the kind carries the very text that it stands for. -/
def isVerbatim : TokenKind → Bool
  | newline | space | stringVariable | integer | float | rational | imaginary | nthRef | opAsgn
  | label | labelEnd | character | symbol | string | stringBeg => false
  | _ => true

end TokenKind

/-- A string that is one piece: `opener` and `closer` stand side by side among the lexemes, with one
content between them at most, and the content of the string is `text`. -/
structure PlainString (ls : List Lexeme) (opener : Lexeme) (text : Text) (closer : Lexeme) :
    Prop where
  opens : opener.hasKind .tstringBeg = true
  quote : Yield.isPlainQuote opener.text = true
  closes : closer.hasKind .tstringEnd = true
  content : text = "" ∧ [opener, closer] <:+: ls ∨
    ∃ l, l.hasKind .tstringContent = true ∧ l.text = text ∧ [opener, l, closer] <:+: ls

/-- What a token carries that stands for the text `x`, where `ls` are the lexemes that the tokens
are made of. -/
def Token.Carries (ls : List Lexeme) (t : Token) (x : Text) : Prop :=
  match t.kind with
  | .newline | .space | .stringVariable => t.payload = .absent
  | .integer => (IntegerLiteral.parse x).map .integer = .ok t.payload
  | .float => (FloatLiteral.parse x).map .float = .ok t.payload
  | .rational => (RationalLiteral.parse x).map .rational = .ok t.payload
  | .imaginary => (ImaginaryLiteral.parse x).map .imaginary = .ok t.payload
  | .nthRef => (groupNumber? x).map (·.map .integer) = .ok (some t.payload)
  | .opAsgn => ∃ p : Text, t.payload = .text p ∧ x = p ++ Text.ofString "="
  | .label | .labelEnd => ∃ p : Text, t.payload = .text p ∧
      (x = p ++ Text.ofString ":" ∨ x = p ∧ p.points.getLast? ≠ some (.char ':'))
  | .character => t.payload = .text ⟨x.points.drop 1⟩
  | .symbol => ∃ p : Text, t.payload = .text p ∧ x = Text.ofString ":" ++ p
  | .string => ∃ (p : Text) (opener closer : Lexeme), t.payload = .text p ∧
      PlainString ls opener p closer ∧ x = opener.text ++ p ++ closer.text
  | .stringBeg => ∃ p rest : Text, t.payload = .text p ∧ x = p ++ rest
  | _ => t.payload = .text x

section

variable {ls : List Lexeme} {kind : TokenKind} {span : Span} {x : Text} {state : State}

theorem carries_text (h : kind.isVerbatim = true) :
    Token.Carries ls ⟨kind, .text x, span⟩ x := by
  cases kind <;> first | rfl | cases h

theorem isVerbatim_of_direct? {k : LexemeKind} (h : k.direct? = some kind) :
    kind.isVerbatim = true := by
  cases k <;> cases h <;> rfl

theorem isVerbatim_of_wordList? {k : LexemeKind} (h : k.wordList? = some kind) :
    kind.isVerbatim = true := by
  cases k <;> cases h <;> rfl

theorem mem_of_lookup {α β : Type} [BEq α] [LawfulBEq α] {xs : List (α × β)} {a : α} {b : β}
    (h : xs.lookup a = some b) : (a, b) ∈ xs := by
  obtain ⟨front, back, rfl, -⟩ := List.lookup_eq_some_iff.1 h
  exact List.mem_append_right _ List.mem_cons_self

/-- The token of a keyword is in one of the tables. -/
theorem of_keywordKind? {P : TokenKind → Prop} {text : String} (hkeywords : ∀ p ∈ keywords, P p.2)
    (hmodifiers : ∀ p ∈ modifierKeywords, P p.2.1 ∧ P p.2.2)
    (h : Yield.keywordKind? state text = some kind) : P kind := by
  rcases Option.or_eq_some_iff.1 h with h | ⟨-, h⟩
  · obtain ⟨⟨block, modifier⟩, hp, rfl⟩ := Option.map_eq_some_iff.1 h
    have hboth := hmodifiers _ (mem_of_lookup hp)
    dsimp only
    split_ifs
    · exact hboth.2
    · exact hboth.1
  · exact hkeywords _ (mem_of_lookup h)

theorem isVerbatim_of_keywordKind? {text : String}
    (h : Yield.keywordKind? state text = some kind) : kind.isVerbatim = true :=
  of_keywordKind? (P := (·.isVerbatim = true)) (by decide) (by decide) h

theorem carries_operator {following : Option Text} {text : String} {payload : Text}
    (h : Yield.operatorKind? state following text = some (kind, payload)) :
    Token.Carries ls ⟨kind, .text payload, span⟩ (.ofString text) := by
  have hassign : ∀ text ∈ assignmentOperators,
      Text.ofString text = dropMark '=' text ++ Text.ofString "=" := by decide
  have hoperators : ∀ p ∈ operators, p.2.isVerbatim = true := by decide
  unfold Yield.operatorKind? at h
  split_ifs at h with _ _ _ _ hmem
  · cases h
    exact carries_text (by unfold Ambiguous.colon2; split_ifs <;> rfl)
  · cases h
    exact carries_text (by unfold Ambiguous.minus; split_ifs <;> rfl)
  · cases h
    exact carries_text (by unfold Ambiguous.ampersand; split_ifs <;> rfl)
  · cases h
    exact carries_text (by unfold Ambiguous.range; split_ifs <;> rfl)
  · cases h
    exact ⟨_, rfl, hassign _ hmem⟩
  · obtain ⟨k, hk, heq⟩ := Option.map_eq_some_iff.1 h
    cases heq
    exact carries_text (hoperators _ (mem_of_lookup hk))

/-- A text that loses its colon is the rest with the colon, and one that loses none ends in none. -/
theorem carries_label (h : kind = .label ∨ kind = .labelEnd) :
    Token.Carries ls ⟨kind, .text (dropMark ':' x), span⟩ x := by
  have hmark : x = dropMark ':' x ++ Text.ofString ":" ∨
      x = dropMark ':' x ∧ (dropMark ':' x).points.getLast? ≠ some (.char ':') := by
    unfold dropMark
    split_ifs with hx
    · refine .inl ?_
      obtain ⟨front, hfront⟩ := List.getLast?_eq_some_iff.1 hx
      obtain ⟨points⟩ := x
      subst hfront
      rw [List.dropLast_concat]
      rfl
    · exact .inr ⟨rfl, hx⟩
  rcases h with rfl | rfl <;> exact ⟨_, rfl, hmark⟩

theorem exists_beforeName? {ps mark : List CodePoint} (h : beforeName? ps = some mark) :
    ∃ rest, ps = mark ++ rest := by
  induction ps generalizing mark with
  | nil => cases h
  | cons p ps ih =>
    rw [beforeName?] at h
    split_ifs at h
    · cases h
      exact ⟨p :: ps, rfl⟩
    · obtain ⟨mark', hmark', rfl⟩ := Option.map_eq_some_iff.1 h
      obtain ⟨rest, rfl⟩ := ih hmark'
      exact ⟨rest, rfl⟩

/-- A heredoc's mark stands at the beginning of its opener. -/
theorem exists_heredocMark (x : Text) : ∃ rest, x = heredocMark x ++ rest := by
  have hself : ∀ x : Text, ∃ rest, x = x ++ rest := fun x =>
    ⟨⟨[]⟩, congrArg Text.mk (List.append_nil x.points).symm⟩
  obtain ⟨_ | ⟨p, ps⟩⟩ := x
  · exact hself _
  unfold heredocMark
  dsimp only
  split_ifs
  · exact hself _
  · cases hmark : beforeName? ps with
    | none => exact hself _
    | some mark =>
      obtain ⟨rest, rfl⟩ := exists_beforeName? hmark
      exact ⟨⟨rest⟩, rfl⟩

end

/-! ### Pieces and wholes -/

/-- The tokens stand for the text `x` of a lexeme, piece by piece, from a byte of the lexeme on. -/
inductive Cut (lines : LineTable) (ls : List Lexeme) (l : Lexeme) : ℕ → List Token → String → Prop
  | nil (shift : ℕ) : Cut lines ls l shift [] ""
  | cons {shift : ℕ} {t : Token} {ts : List Token} {x y : String}
      (span : Yield.spanAt lines l shift x.utf8ByteSize = .ok t.span)
      (carries : t.Carries ls x) (rest : Cut lines ls l (shift + x.utf8ByteSize) ts y) :
      Cut lines ls l shift (t :: ts) (x ++ y)

/-- The tokens stand for a text: for pieces of a lexeme, or for all of it and of the lexemes behind
it. -/
inductive Rendered (lines : LineTable) (ls : List Lexeme) (l : Lexeme) (behind : List Lexeme) :
    List Token → Text → Prop
  | pieces {ts : List Token} {x : String} (h : Cut lines ls l 0 ts x) :
      Rendered lines ls l behind ts x
  | whole {t : Token} {first last : Span} (first_eq : Yield.spanOf lines l = .ok first)
      (last_eq : Yield.spanOf lines (behind.getLastD l) = .ok last)
      (span : t.span = first.cover last)
      (carries : t.Carries ls (Text.join ((l :: behind).map Lexeme.text))) :
      Rendered lines ls l behind [t] (Text.join ((l :: behind).map Lexeme.text))

/-- The text that the tokens of a step stand for, where `behind` are the lexemes read behind the
first one. -/
def shown (options : Options) (l : Lexeme) (behind : List Lexeme) : Text :=
  match Role.of options l.kind with
  | .dropped | .known .dataEnd => ""
  | .known .comment | .known .heredocEnd => chomp l.text
  | .known .tstringBeg | .known .symbeg | .known .embdocBeg =>
    Text.join ((l :: behind).map Lexeme.text)
  | _ => l.text

theorem Cut.single {lines : LineTable} {ls : List Lexeme} {l : Lexeme} {shift : ℕ} {t : Token}
    {x : String} (span : Yield.spanAt lines l shift x.utf8ByteSize = .ok t.span)
    (carries : t.Carries ls x) : Cut lines ls l shift [t] x := by
  have h := Cut.cons span carries (.nil _)
  rwa [String.append_empty] at h

namespace Yield

variable {lines : LineTable} {options : Options} {state : State} {c : Cursor} {i : ℕ}
variable {ls rest behind : List Lexeme} {l : Lexeme} {kind : TokenKind} {payload : Payload}
variable {ts : List Token} {y : Yield}

theorem exists_of_byteLength {n : ℕ} (h : l.byteLength = .ok n) :
    ∃ x : String, l.text = x ∧ n = x.utf8ByteSize := by
  unfold Lexeme.byteLength at h
  cases hx : l.text.string with
  | error halves => rw [hx] at h; cases h
  | ok x => rw [hx] at h; cases h; exact ⟨x, Text.string_eq_ok_iff.1 hx, rfl⟩

theorem exists_of_spanOf {span : Span} (h : spanOf lines l = .ok span) :
    ∃ x : String, l.text = x ∧ spanAt lines l 0 x.utf8ByteSize = .ok span := by
  obtain ⟨n, hn, hspan⟩ := exists_of_bind h
  obtain ⟨x, hx, rfl⟩ := exists_of_byteLength (ok_of_mapError hn)
  exact ⟨x, hx, hspan⟩

theorem rendered_of_spanOf {t : Token} (h : spanOf lines l = .ok t.span)
    (hc : t.Carries ls l.text) : Rendered lines ls l behind [t] l.text := by
  obtain ⟨x, hx, hat⟩ := exists_of_spanOf h
  rw [hx] at hc ⊢
  exact .pieces (.single hat hc)

theorem rendered_single (h : single lines l kind payload = .ok ts)
    (hc : ∀ span, Token.Carries ls ⟨kind, payload, span⟩ l.text) :
    Rendered lines ls l behind ts l.text := by
  obtain ⟨span, hspan, hts⟩ := exists_of_bind h
  cases hts
  exact rendered_of_spanOf hspan (hc span)

theorem rendered_text (h : single lines l kind (.text l.text) = .ok ts)
    (hk : kind.isVerbatim = true) : Rendered lines ls l behind ts l.text :=
  rendered_single h fun _ => carries_text hk

theorem rendered_valued {α : Type} {f : α → Payload} {value : Except LiteralError α}
    (h : valued lines l kind f value = .ok ts)
    (hc : ∀ a span, value = .ok a → Token.Carries ls ⟨kind, f a, span⟩ l.text) :
    Rendered lines ls l behind ts l.text := by
  obtain ⟨a, ha, hts⟩ := exists_of_bind h
  exact rendered_single hts fun span => hc a span (ok_of_mapError ha)

/-! ### Lexemes on their own -/

theorem rendered_identifier (h : identifier lines l = .ok ts) :
    Rendered lines ls l behind ts l.text := by
  refine rendered_text h ?_
  split_ifs <;> rfl

theorem rendered_keyword (h : keyword lines state l = .ok ts) :
    Rendered lines ls l behind ts l.text := by
  unfold keyword at h
  split at h
  next kind hkind =>
    obtain ⟨text, -, htext⟩ := Option.bind_eq_some_iff.1 hkind
    exact rendered_text h (isVerbatim_of_keywordKind? htext)
  next =>
    obtain ⟨_, -, hthrow⟩ := exists_of_bind h
    cases hthrow

theorem rendered_operator {following : Option Text}
    (h : operator lines state following l = .ok ts) :
    Rendered lines ls l behind ts l.text := by
  unfold operator at h
  split at h
  next kind payload hkind =>
    obtain ⟨text, htext, hkind⟩ := Option.bind_eq_some_iff.1 hkind
    refine rendered_single h fun span => ?_
    rw [Text.string?_eq_some_iff.1 htext]
    exact carries_operator hkind
  next =>
    obtain ⟨_, -, hthrow⟩ := exists_of_bind h
    cases hthrow

theorem rendered_integer {split : Bool} (h : integer lines split l = .ok ts) :
    Rendered lines ls l behind ts l.text := by
  unfold integer at h
  split_ifs at h with hsign
  · obtain ⟨first, hfirst, h⟩ := exists_of_bind h
    obtain ⟨value, hvalue, h⟩ := exists_of_bind h
    obtain ⟨length, hlength, h⟩ := exists_of_bind h
    obtain ⟨second, hsecond, h⟩ := exists_of_bind h
    cases h
    obtain ⟨x, hx, rfl⟩ := exists_of_byteLength (ok_of_mapError hlength)
    rw [hx] at hsign hvalue ⊢
    obtain ⟨digits, rfl⟩ := Text.exists_of_head? hsign.1
    have hdrop : dropFirst (Text.ofString (String.singleton '+' ++ digits)) = digits :=
      Text.eq_of_points (by simp [dropFirst])
    have hlength : (String.singleton '+' ++ digits).utf8ByteSize - 1 = digits.utf8ByteSize := by
      rw [String.utf8ByteSize_append, String.utf8ByteSize_singleton]
      exact Nat.add_sub_cancel_left ..
    rw [hdrop] at hvalue
    rw [hlength] at hsecond
    refine .pieces (.cons hfirst (carries_text rfl) (.single hsecond ?_))
    rw [Token.Carries, ok_of_mapError hvalue]
    rfl
  · exact rendered_valued h fun n span hn => by rw [Token.Carries, hn]; rfl

theorem rendered_backReference (h : backReference lines l = .ok ts) :
    Rendered lines ls l behind ts l.text := by
  obtain ⟨number, hnumber, h⟩ := exists_of_bind h
  cases number with
  | none => exact rendered_text h rfl
  | some n =>
    refine rendered_single h fun span => ?_
    rw [Token.Carries, ok_of_mapError hnumber]
    rfl

theorem rendered_regexpEnd (h : regexpEnd lines l = .ok ts) :
    Rendered lines ls l behind ts l.text := by
  unfold regexpEnd at h
  split at h
  next => cases h
  next delimiter options hpoints =>
    obtain ⟨x, hx, h⟩ := exists_of_bind h
    obtain ⟨first, hfirst, h⟩ := exists_of_bind h
    obtain ⟨z, hz, h⟩ := exists_of_bind h
    obtain ⟨second, hsecond, h⟩ := exists_of_bind h
    cases h
    have hx := Text.string_eq_ok_iff.1 (ok_of_mapError hx)
    have hz := Text.string_eq_ok_iff.1 (ok_of_mapError hz)
    have htext : l.text = Text.ofString (x ++ z) := by
      rw [Text.ofString_append, ← hx, ← hz]
      exact Text.eq_of_points hpoints
    rw [htext]
    rw [← Nat.zero_add x.utf8ByteSize] at hsecond
    exact .pieces (.cons hfirst (carries_text rfl) (.single hsecond (carries_text rfl)))

theorem rendered_chomped (h : chomped lines l kind = .ok ts) (hk : kind.isVerbatim = true) :
    Rendered lines ls l behind ts (chomp l.text) := by
  obtain ⟨x, hx, h⟩ := exists_of_bind h
  obtain ⟨span, hspan, h⟩ := exists_of_bind h
  cases h
  rw [Text.string_eq_ok_iff.1 (ok_of_mapError hx)]
  exact .pieces (.single hspan (carries_text hk))

/-! ### Lexemes with others behind them -/

theorem rendered_covering (behind : List Lexeme) {text : Text} {first : Span}
    (hfirst : spanOf lines l = .ok first)
    (h : covering lines first (behind.getLastD l) kind text = .ok ts)
    (hc : ∀ span, Token.Carries ls ⟨kind, .text text, span⟩
      (Text.join ((l :: behind).map Lexeme.text))) :
    Rendered lines ls l behind ts (Text.join ((l :: behind).map Lexeme.text)) := by
  obtain ⟨last, hlast, hts⟩ := exists_of_bind h
  cases hts
  exact .whole hfirst hlast rfl (hc _)

/-- Without lexemes behind it a lexeme stands for its own text. -/
theorem rendered_join_nil (h : Rendered lines ls l [] ts l.text) :
    Rendered lines ls l [] ts (Text.join ([l].map Lexeme.text)) := by
  rw [List.map_singleton, Text.join_singleton]
  exact h

theorem rendered_string (hc : c.At i (l :: rest)) (hls : l :: rest <:+ ls)
    (hl : l.hasKind .tstringBeg = true) (h : string lines c l = .ok y) :
    Rendered lines ls l (rest.take (y.move.stride i).count) y.tokens
      (Text.join ((l :: rest.take (y.move.stride i).count).map Lexeme.text)) := by
  have h1 : c.peek 1 = .ok rest[0]? := hc.peek 1
  have h2 : c.peek 2 = .ok rest[1]? := hc.peek 2
  unfold string at h
  rw [h1, h2] at h
  obtain ⟨start, hstart, h⟩ := exists_of_bind h
  simp only [bind, Except.bind, Except.mapError] at h
  split at h
  next content count last hplain =>
    split_ifs at hplain with hquote
    obtain ⟨hend, hrest⟩ := cases_of_plainRest? hplain
    obtain ⟨ts, hts, hy⟩ := exists_of_bind h
    cases hy
    rcases hrest with ⟨tail, rfl, rfl, rfl⟩ | ⟨f, tail, rfl, hf, rfl, rfl⟩
    · have hin : [l, last] <:+: ls :=
        ((List.prefix_append [l, last] tail).isInfix).trans hls.isInfix
      refine rendered_covering [last] hstart hts fun span =>
        ⟨_, l, last, rfl, ⟨hl, hquote, hend, .inl ⟨rfl, hin⟩⟩, Text.eq_of_points ?_⟩
      simp
    · have hin : [l, f, last] <:+: ls :=
        ((List.prefix_append [l, f, last] tail).isInfix).trans hls.isInfix
      refine rendered_covering [f, last] hstart hts fun span =>
        ⟨_, l, last, rfl, ⟨hl, hquote, hend, .inr ⟨f, hf, rfl, hin⟩⟩, Text.eq_of_points ?_⟩
      simp
  next =>
    cases h
    exact rendered_join_nil (rendered_of_spanOf hstart ⟨l.text, ⟨[]⟩, rfl, Text.append_nil _⟩)

theorem rendered_symbol (hc : c.At i (l :: rest)) (h : symbol lines c l = .ok y) :
    Rendered lines ls l (rest.take (y.move.stride i).count) y.tokens
      (Text.join ((l :: rest.take (y.move.stride i).count).map Lexeme.text)) := by
  have h1 : c.peek 1 = .ok rest[0]? := hc.peek 1
  unfold symbol at h
  rw [h1] at h
  obtain ⟨start, hstart, hfold⟩ := exists_of_bind h
  simp only [bind, Except.bind, Except.mapError] at hfold
  split at hfold
  next content hcontent =>
    split_ifs at hcontent with hcolon
    obtain ⟨tail, rfl⟩ := List.head?_eq_some_iff.1 (List.head?_eq_getElem? ▸ hcontent)
    obtain ⟨ts, hts, hy⟩ := exists_of_bind hfold
    cases hy
    refine rendered_covering [content] hstart hts fun span =>
      ⟨_, rfl, Text.eq_of_points ?_⟩
    simp [hcolon]
  next =>
    cases hfold
    exact rendered_join_nil (rendered_of_spanOf hstart (carries_text rfl))

theorem rendered_embdoc (hc : c.At i (l :: rest)) (h : embdoc lines c l = .ok y) :
    Rendered lines ls l (rest.take (y.move.stride i).count) y.tokens
      (Text.join ((l :: rest.take (y.move.stride i).count).map Lexeme.text)) := by
  have hf := hc.findForward LexemeKind.embdocEnd.name
  unfold embdoc at h
  rw [hf] at h
  cases hk : (l :: rest).findIdx? (·.kind == (LexemeKind.embdocEnd.name : Text)) with
  | none => rw [hk] at h; cases h
  | some k =>
    rw [hk] at h
    simp only [bind, Except.bind, Except.mapError, Option.map_some, hc.runThrough] at h
    obtain ⟨start, hstart, h⟩ := exists_of_bind h
    obtain ⟨ts, hts, hy⟩ := exists_of_bind h
    cases hy
    have hk : (Move.stride i (.consumeThrough ((i + k : ℕ) : Int))).count = k := by
      simp only [Move.stride, Stride.count]
      omega
    rw [List.take_succ_cons, List.getLastD_cons] at hts
    rw [hk]
    exact rendered_covering _ hstart hts fun span => carries_text rfl

theorem rendered_wordList (h : wordList lines c l kind = .ok y) (hk : kind.isVerbatim = true) :
    Rendered lines ls l behind y.tokens l.text := by
  obtain ⟨following, -, h⟩ := exists_of_bind h
  obtain ⟨ts, hts, hy⟩ := exists_of_bind h
  cases hy
  exact rendered_text hts hk

/-! ### All lexemes -/

theorem exists_tokens {ts : Except Failure (List Token)} {move : Move}
    (h : (do return (⟨← ts, move⟩ : Yield) : Except Failure Yield) = .ok y) :
    ts = .ok y.tokens := by
  obtain ⟨ts', hts, hy⟩ := exists_of_bind h
  cases hy
  exact hts

theorem rendered_ofKind (hc : c.At i (l :: rest)) (hls : l :: rest <:+ ls) {k : LexemeKind}
    (hrole : Role.of options l.kind = .known k) (h : ofKind lines options state c l k = .ok y) :
    Rendered lines ls l (rest.take (y.move.stride i).count) y.tokens
      (shown options l (rest.take (y.move.stride i).count)) := by
  rw [shown, hrole]
  cases k with
  | tstringBeg => exact rendered_string hc hls (Role.hasKind_of_known hrole) h
  | symbeg => exact rendered_symbol hc h
  | embdocBeg => exact rendered_embdoc hc h
  | identifier => exact rendered_identifier (exists_tokens h)
  | keyword => exact rendered_keyword (exists_tokens h)
  | operator =>
    obtain ⟨following, -, h⟩ := exists_of_bind h
    exact rendered_operator (exists_tokens h)
  | integer => exact rendered_integer (exists_tokens h)
  | float =>
    exact rendered_valued (exists_tokens h) fun x span hx => by rw [Token.Carries, hx]; rfl
  | rational =>
    exact rendered_valued (exists_tokens h) fun x span hx => by rw [Token.Carries, hx]; rfl
  | imaginary =>
    exact rendered_valued (exists_tokens h) fun x span hx => by rw [Token.Carries, hx]; rfl
  | backref => exact rendered_backReference (exists_tokens h)
  | label => exact rendered_single (exists_tokens h) fun span => carries_label (.inl rfl)
  | labelEnd => exact rendered_single (exists_tokens h) fun span => carries_label (.inr rfl)
  | embvar => exact rendered_single (exists_tokens h) fun span => rfl
  | wordsSep => exact rendered_single (exists_tokens h) fun span => rfl
  | newline => exact rendered_single (exists_tokens h) fun span => rfl
  | ignoredNewline => exact rendered_single (exists_tokens h) fun span => rfl
  | lbrace =>
    exact rendered_text (exists_tokens h) (by unfold Ambiguous.lbrace; split_ifs <;> rfl)
  | lbracket =>
    exact rendered_text (exists_tokens h) (by unfold Ambiguous.lbracket; split_ifs <;> rfl)
  | lparen =>
    exact rendered_text (exists_tokens h) (by unfold Ambiguous.lparen; split_ifs <;> rfl)
  | comment => exact rendered_chomped (exists_tokens h) rfl
  | heredocEnd => exact rendered_chomped (exists_tokens h) rfl
  | heredocBeg =>
    obtain ⟨mark, hmark⟩ := exists_heredocMark l.text
    exact rendered_single (exists_tokens h) fun span => ⟨_, mark, rfl, hmark⟩
  | regexpEnd => exact rendered_regexpEnd (exists_tokens h)
  | dataEnd => cases h; exact .pieces (.nil 0)
  | _ =>
    obtain ⟨_, -, hthrow⟩ := exists_of_bind h
    cases hthrow

/-- What a lexeme yields stands for its text, or for the text of the lexemes that it is folded with.
-/
theorem rendered_ofLexeme (hc : c.At i (l :: rest)) (hls : l :: rest <:+ ls)
    (h : ofLexeme lines options state c l = .ok y) :
    Rendered lines ls l (rest.take (y.move.stride i).count) y.tokens
      (shown options l (rest.take (y.move.stride i).count)) := by
  unfold ofLexeme at h
  cases hrole : Role.of options l.kind with
  | known k => rw [hrole] at h; exact rendered_ofKind hc hls hrole h
  | dropped =>
    rw [hrole] at h
    rw [shown, hrole]
    cases h
    exact .pieces (.nil 0)
  | direct kind =>
    rw [hrole] at h
    rw [shown, hrole]
    obtain ⟨k, -, hk⟩ := Option.bind_eq_some_iff.1 (Role.direct?_of_direct hrole)
    exact rendered_text (exists_tokens h) (isVerbatim_of_direct? hk)
  | wordList kind =>
    rw [hrole] at h
    rw [shown, hrole]
    obtain ⟨k, -, hk⟩ := Option.bind_eq_some_iff.1 (Role.wordList?_of_wordList hrole)
    exact rendered_wordList h (isVerbatim_of_wordList? hk)
  | character =>
    rw [hrole] at h
    rw [shown, hrole]
    refine rendered_single (exists_tokens h) fun span => ?_
    rw [Token.Carries, dropFirst, List.drop_one]
  | unknown =>
    rw [hrole] at h
    obtain ⟨_, -, hthrow⟩ := exists_of_bind h
    cases hthrow

end Yield

theorem rendered_of_reading {lines : LineTable} {options : Options} {state : State}
    {ls rest : List Lexeme} {l : Lexeme} {r : Reading} (hls : l :: rest <:+ ls)
    (h : reading lines options state (l :: rest) = .ok r) :
    Rendered lines ls l (rest.take r.stride.count) r.tokens
      (shown options l (rest.take r.stride.count)) := by
  rw [reading] at h
  cases hy : Yield.ofLexeme lines options state (.start (l :: rest)) l with
  | error e => rw [hy] at h; cases h
  | ok y =>
    rw [hy] at h
    cases h
    exact Yield.rendered_ofLexeme (Cursor.start_at _) hls hy

end RubyTokens
