import RubyTokens.Proofs.Heredoc.Layout

/-! What lies behind a fence is out of sight. A lexeme of a segment or of a body sees no further
than to the fence behind it, and of the fence it sees only that it is one. So each segment and each
body is read alike wherever it stands. -/

namespace RubyTokens

/-- The options name no known kind as that of character literals, except the one of its own. -/
def Options.KeepsKinds (options : Options) : Prop :=
  ∀ k : LexemeKind, k.name = options.characterKind → k = .character

/-- Behind a list comes nothing, or no fold goes on behind it and a fence comes. -/
def Fenced (options : Options) (xs post : List Lexeme) : Prop :=
  post = [] ∨ Contained options xs ∧ ∃ f rest, post = f :: rest ∧ f.isFence = true

theorem Fenced.drop {options : Options} {l : Lexeme} {rest post : List Lexeme}
    (h : Fenced options (l :: rest) post) :
    Fenced options (rest.drop (Stride.of options l rest).count) post := by
  refine h.imp_right fun h => ⟨?_, h.2⟩
  have hall := h.1
  rw [Contained] at hall
  exact hall.2.2

namespace Lexeme

variable {l f : Lexeme} {xs post rest rest' : List Lexeme}

theorem not_hasKind_of_isFence (hf : f.isFence = true) {k : LexemeKind}
    (hk : k ∉ [LexemeKind.heredocBeg, .heredocEnd, .newline, .ignoredNewline, .comment]) :
    f.hasKind k = false := by
  obtain ⟨j, hj, hfj⟩ := exists_kind_of_isFence hf
  exact hasKind_eq_false hfj fun h => hk (h ▸ hj)

/-- A fence is no number, separator, content or end of a string: nothing that a fold looks for. -/
theorem isNumeric_of_isFence (hf : f.isFence = true) :
    (LexemeKind.ofText? f.kind).any LexemeKind.isNumeric = false := by
  obtain ⟨k, hk, hl⟩ := exists_kind_of_isFence hf
  have hkind : LexemeKind.ofText? f.kind = some k := hasKind_iff.1 hl
  have hnumber : ∀ k ∈ [LexemeKind.heredocBeg, .heredocEnd, .newline, .ignoredNewline, .comment],
      k.isNumeric = false := by decide
  rw [hkind]
  exact hnumber k hk

theorem SeesAlike.of_isFence (hf : f.isFence = true) (rest rest' : List Lexeme) :
    f.SeesAlike rest rest' := by
  have hno : ∀ {k : LexemeKind},
      k ∉ [LexemeKind.heredocBeg, .heredocEnd, .newline, .ignoredNewline, .comment] →
      ¬ f.hasKind k = true := fun hk h => by rw [not_hasKind_of_isFence hf hk] at h; cases h
  refine ⟨fun h => absurd h (hno (by decide)), fun h => ?_, fun h => absurd h (hno (by decide)),
    fun h => absurd h (hno (by decide)), fun h => absurd h (hno (by decide))⟩
  obtain ⟨k, hk, hl⟩ := exists_kind_of_isFence hf
  have hlist : ∀ k ∈ [LexemeKind.heredocBeg, .heredocEnd, .newline, .ignoredNewline, .comment],
      k.wordList? = none := by decide
  rw [hasKind_iff.1 hl, Option.bind_some, hlist k hk] at h
  cases h

theorem plainRest?_of_isFence (hf : f.isFence = true) (closer : Option Lexeme) :
    Yield.plainRest? (some f) closer = none := by
  unfold Yield.plainRest?
  rw [Option.bind_some, not_hasKind_of_isFence hf (by decide),
    not_hasKind_of_isFence hf (by decide)]
  cases closer <;> rfl

theorem plainRest?_append (hf : f.isFence = true) (xs rest : List Lexeme) :
    Yield.plainRest? (xs ++ f :: rest)[0]? (xs ++ f :: rest)[1]? =
      Yield.plainRest? xs[0]? xs[1]? := by
  cases xs with
  | nil => exact plainRest?_of_isFence hf _
  | cons a xs =>
    cases xs with
    | nil =>
      simp only [List.cons_append, List.nil_append, List.getElem?_cons_zero,
        List.getElem?_cons_succ, List.getElem?_nil]
      unfold Yield.plainRest?
      simp only [Option.bind_some, not_hasKind_of_isFence hf (k := .tstringEnd) (by decide)]
      split_ifs <;> simp_all
    | cons b xs => rfl

theorem embdocEnd?_append {l : Lexeme} {xs : List Lexeme}
    (h : ∃ e ∈ xs, e.hasKind .embdocEnd = true) (post : List Lexeme) :
    embdocEnd? (l :: (xs ++ post)) = embdocEnd? (l :: xs) ∧
      ∀ k, embdocEnd? (l :: (xs ++ post)) = some k →
        (l :: (xs ++ post)).take (k + 1) = (l :: xs).take (k + 1) := by
  obtain ⟨e, he, hend⟩ := h
  unfold embdocEnd?
  obtain ⟨k, hk⟩ : ∃ k,
      (l :: xs).findIdx? (·.kind == (LexemeKind.embdocEnd.name : Text)) = some k := by
    rw [← Option.isSome_iff_exists, List.findIdx?_isSome, List.any_eq_true]
    exact ⟨e, .tail _ he, hend⟩
  have happ : (l :: (xs ++ post)).findIdx? (·.kind == (LexemeKind.embdocEnd.name : Text)) =
      some k := by
    rw [← List.cons_append, List.findIdx?_append, hk, Option.some_or]
  refine ⟨happ.trans hk.symm, fun j hj => ?_⟩
  rw [happ] at hj
  cases hj
  have hlt := (List.findIdx?_eq_some_iff_getElem.1 hk).1
  rw [← List.cons_append, List.take_append_of_le_length hlt]

/-- A lexeme sees what it would see if the list ended where no fold goes on behind it. -/
theorem SeesAlike.of_fenced {options : Options} (hp : Fenced options (l :: xs) post) :
    l.SeesAlike (xs ++ post) xs := by
  rcases hp with rfl | ⟨hall, f, rest, rfl, hf⟩
  · rw [List.append_nil]
    exact .refl l xs
  rw [Contained] at hall
  obtain ⟨hcolon, hembdoc, -⟩ := hall
  refine ⟨fun _ => ?_, fun _ => ?_, fun _ => plainRest?_append hf xs rest, fun hl ht => ?_,
    fun hl => embdocEnd?_append (hembdoc hl) _⟩
  · cases xs with
    | nil => exact isNumeric_of_isFence hf
    | cons a xs => rfl
  · cases xs with
    | nil => exact not_hasKind_of_isFence hf (by decide)
    | cons a xs => rfl
  · cases xs with
    | nil => exact absurd rfl (hcolon (by rw [isColon, hl, ht]; rfl))
    | cons a xs => rfl

end Lexeme

/-! ### The strides of fences -/

variable {options : Options} {l : Lexeme}

theorem Role.of_hasKind (ho : options.KeepsKinds) {k : LexemeKind} (hl : l.hasKind k = true)
    (hk : k ≠ .character) : Role.of options l.kind = Role.ofKind k := by
  rw [eq_of_beq hl]
  exact Role.of_name options k fun h => hk (ho k h)

theorem Stride.of_heredocBeg (ho : options.KeepsKinds) (hl : l.hasKind .heredocBeg = true)
    (rest : List Lexeme) : Stride.of options l rest = .openHeredoc := by
  rw [Stride.of, Move.of, Role.of_hasKind ho hl (by decide)]
  rfl

theorem Stride.of_heredocEnd (ho : options.KeepsKinds) (hl : l.hasKind .heredocEnd = true)
    (rest : List Lexeme) : Stride.of options l rest = .closeHeredoc := by
  rw [Stride.of, Move.of, Role.of_hasKind ho hl (by decide)]
  rfl

theorem Stride.of_endsLine (ho : options.KeepsKinds) (hl : l.endsLine = true)
    (rest : List Lexeme) : Stride.of options l rest = .endLine := by
  obtain ⟨k, hk, hkind⟩ := Lexeme.exists_kind_of_endsLine hl
  rw [Stride.of, Move.of, Role.of_hasKind ho hkind (by rintro rfl; exact absurd hk (by decide))]
  simp only [List.mem_cons, List.not_mem_nil, or_false] at hk
  rcases hk with rfl | rfl | rfl
  · rfl
  · rfl
  · simp only [Role.ofKind, hl]
    rfl

/-- What a lexeme is that has a stride. -/
def Stride.Fits (l : Lexeme) : Stride → Prop
  | .openHeredoc => l.hasKind .heredocBeg = true
  | .closeHeredoc => l.hasKind .heredocEnd = true
  | .finish => l.hasKind .dataEnd = true
  | .endLine => l.endsLine = true
  | .past _ => True

theorem Stride.fits_of (options : Options) (l : Lexeme) (rest : List Lexeme) :
    (Stride.of options l rest).Fits l := by
  unfold Stride.of Move.of
  split
  next => split_ifs <;> trivial
  next => split <;> trivial
  next => split_ifs <;> trivial
  next => trivial
  next h => simp [Fits, Move.stride, Lexeme.endsLine, Role.hasKind_of_known h]
  next h => simp [Fits, Move.stride, Lexeme.endsLine, Role.hasKind_of_known h]
  next =>
    split_ifs with he
    · exact he
    · trivial
  next h => exact Role.hasKind_of_known h
  next h => exact Role.hasKind_of_known h
  next h => exact Role.hasKind_of_known h
  next => trivial

theorem Stride.fits_of_reading {lines : LineTable} {state : State} {r : Reading}
    (h : reading lines options state (l :: rest) = .ok r) : r.stride.Fits l :=
  stride_of_reading h ▸ Stride.fits_of options l rest

/-- A lexeme that is not marked is passed, or ends a line. -/
theorem Stride.of_unmarked {xs : List Lexeme} (h : Unmarked xs) (hl : l ∈ xs)
    (rest : List Lexeme) :
    (Stride.of options l rest = .endLine ∧ l.endsLine = true) ∨
      Stride.of options l rest = .past (Stride.of options l rest).count := by
  have hkind := Stride.fits_of options l rest
  have hno : ∀ k ∈ [LexemeKind.heredocBeg, .heredocEnd, .dataEnd], ¬ l.hasKind k = true :=
    fun k hk hlk => by rw [h l hl k hk] at hlk; cases hlk
  cases hs : Stride.of options l rest with
  | past k => exact .inr rfl
  | endLine => rw [hs] at hkind; exact .inl ⟨rfl, hkind⟩
  | finish => rw [hs] at hkind; exact absurd hkind (hno _ (by decide))
  | openHeredoc => rw [hs] at hkind; exact absurd hkind (hno _ (by decide))
  | closeHeredoc => rw [hs] at hkind; exact absurd hkind (hno _ (by decide))

end RubyTokens
