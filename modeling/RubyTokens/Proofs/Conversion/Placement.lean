import RubyTokens.Proofs.Conversion.Rendering
import RubyTokens.Proofs.Conversion.Walk

/-! Where tokens lie. If the lexemes lie end to end in the source, the tokens of a step lie end to
end from the byte where its lexeme begins, and each of them lies over the text that it stands for.
-/

namespace RubyTokens

/-- The tokens lie end to end from a byte on, each over the text that it stands for. -/
inductive Lays (ls : List Lexeme) : ℕ → List Token → String → Prop
  | nil (o : ℕ) : Lays ls o [] ""
  | cons {o : ℕ} {t : Token} {ts : List Token} {x y : String}
      (span : t.span = .sized o x.utf8ByteSize) (carries : t.Carries ls x)
      (behind : Lays ls (o + x.utf8ByteSize) ts y) : Lays ls o (t :: ts) (x ++ y)

variable {lines : LineTable} {options : Options} {ls behind rest : List Lexeme} {l : Lexeme}
variable {o shift n : ℕ} {span : Span} {ts : List Token} {x : String}

/-! ### Ranges of lexemes -/

theorem spanAt_eq (hl : lines.offset l.line l.column = .ok o)
    (h : Yield.spanAt lines l shift n = .ok span) : span = .sized (o + shift) n :=
  LineTable.span_eq (LineTable.offset_add hl shift) (ok_of_mapError h)

theorem spanOf_eq (hl : lines.offset l.line l.column = .ok o) (hx : l.text = x)
    (h : Yield.spanOf lines l = .ok span) : span = .sized o x.utf8ByteSize := by
  obtain ⟨y, hy, hat⟩ := Yield.exists_of_spanOf h
  obtain rfl : x = y := Text.ofString_inj (hx.symm.trans hy)
  exact spanAt_eq hl hat

/-- The range over the first and the last of some lexemes is the range over all of them. -/
theorem Tiles.cover_eq (h : Tiles lines o (l :: behind)) {first last : Span}
    (hfirst : Yield.spanOf lines l = .ok first)
    (hlast : Yield.spanOf lines (behind.getLastD l) = .ok last) :
    first.cover last = .sized o (extent (l :: behind)) := by
  obtain ⟨front, e, hfront⟩ : ∃ front e, l :: behind = front ++ [e] :=
    ⟨_, _, (List.dropLast_append_getLast (List.cons_ne_nil l behind)).symm⟩
  have he : behind.getLastD l = e := by
    rw [← List.getLastD_cons (a := l), hfront, List.getLastD_concat]
  have hextent : extent (l :: behind) = extent front + e.size := by
    rw [hfront, extent_append, extent_cons, extent_nil, Nat.add_zero]
  rw [he] at hlast
  obtain ⟨-, hend⟩ := Tiles.append (hfront ▸ h)
  cases h with
  | cons position text =>
    cases hend with
    | cons position' text' =>
      rw [spanOf_eq position text hfirst, spanOf_eq position' text' hlast, ← Lexeme.size_eq text,
        ← Lexeme.size_eq text']
      have hcons := extent_cons l behind
      simp only [Span.cover, Span.sized, Span.mk.injEq]
      omega

/-! ### Tokens of one step -/

theorem Cut.lays {s : String} (hl : lines.offset l.line l.column = .ok o)
    (h : Cut lines ls l shift ts s) : Lays ls (o + shift) ts s := by
  induction h with
  | nil shift => exact .nil _
  | cons span carries _ ih => exact .cons (spanAt_eq hl span) carries (Nat.add_assoc .. ▸ ih)

theorem Rendered.lays {text : Text} (ht : Tiles lines o (l :: behind))
    (h : Rendered lines ls l behind ts text) : ∃ s : String, text = s ∧ Lays ls o ts s := by
  cases h with
  | pieces hcut =>
    cases ht with
    | cons position => exact ⟨_, rfl, Nat.add_zero o ▸ hcut.lays position⟩
  | whole first_eq last_eq span carries =>
    obtain ⟨x, hx, -, hextent⟩ := ht.exists_text
    rw [hx] at carries ⊢
    have hspan := span.trans (ht.cover_eq first_eq last_eq)
    rw [hextent] at hspan
    refine ⟨x, rfl, ?_⟩
    have hone : Lays ls o [_] (x ++ "") := .cons hspan carries (.nil _)
    rwa [String.append_empty] at hone

theorem Lays.exists_slice {source : Source} {s : String} (h : Lays ls o ts s)
    (hs : source.Shows o s) :
    ∀ t ∈ ts, ∃ x : String, source.slice t.span = some x ∧ t.Carries ls x := by
  induction h with
  | nil o => exact List.forall_mem_nil _
  | @cons o t ts x y span carries _ ih =>
    obtain ⟨hx, hy⟩ := Source.shows_append.1 hs
    rintro t' (_ | ⟨_, ht'⟩)
    · exact ⟨x, span ▸ hx, carries⟩
    · exact ih hy t' ht'

/-- The tokens of a step stand for the beginning of what the step reads. -/
theorem exists_shown_append (options : Options) (l : Lexeme) (behind : List Lexeme) :
    ∃ t, Text.join ((l :: behind).map Lexeme.text) = shown options l behind ++ t := by
  unfold shown
  split
  next => exact ⟨_, rfl⟩
  next => exact ⟨_, rfl⟩
  next =>
    obtain ⟨e, he, -⟩ := chompPoints_append l.text.points
    exact ⟨⟨e ++ (Text.join (behind.map Lexeme.text)).points⟩, Text.eq_of_points (by
      simp [chomp, ← List.append_assoc, ← he])⟩
  next =>
    obtain ⟨e, he, -⟩ := chompPoints_append l.text.points
    exact ⟨⟨e ++ (Text.join (behind.map Lexeme.text)).points⟩, Text.eq_of_points (by
      simp [chomp, ← List.append_assoc, ← he])⟩
  next => exact ⟨_, Text.append_nil _⟩
  next => exact ⟨_, Text.append_nil _⟩
  next => exact ⟨_, Text.append_nil _⟩
  next => exact ⟨_, Text.join_cons _ _⟩

/-- The tokens of a step lie over a text that stands in the source where the step's lexeme begins.
-/
theorem exists_lays {state : State} {r : Reading} (hls : l :: rest <:+ ls)
    (ht : Tiles lines o (l :: rest)) (h : reading lines options state (l :: rest) = .ok r) :
    ∃ s : String, shown options l (rest.take r.stride.count) = s ∧ Lays ls o r.tokens s ∧
      lines.source.Shows o s := by
  have hread : Tiles lines o (l :: rest.take r.stride.count) := ht.take (r.stride.count + 1)
  obtain ⟨s, hs, hlays⟩ := (rendered_of_reading hls h).lays hread
  obtain ⟨x, hx, hshows, -⟩ := hread.exists_text
  obtain ⟨t, happend⟩ := exists_shown_append options l (rest.take r.stride.count)
  rw [hx, hs] at happend
  obtain ⟨s', y, hs', -, rfl⟩ := Text.exists_of_append happend
  obtain rfl := Text.ofString_inj hs'
  exact ⟨s, hs, hlays, (Source.shows_append.1 hshows).1⟩

namespace Job

/-- If the lexemes lie end to end in the source, each token of a conversion lies over a text of the
source, and carries what its kind makes of that text. -/
theorem carries_of_tiles {j : Job} (ht : Tiles j.setting.lines o j.lexemes)
    (h : j.outcome = .tokens ts) :
    ∀ t ∈ ts, ∃ x : String, j.source.slice t.span = some x ∧ t.Carries j.lexemes x := by
  intro t hmem
  obtain ⟨-, rfl⟩ := outcome_eq_tokens_iff.1 h
  obtain ⟨made, hmade, hin⟩ := List.mem_flatMap.1 hmem
  obtain ⟨i, l, rest, r, hread⟩ :=
    (Progress.reaches_run _ _ _).exists_made (List.mem_reverse.1 hmade)
  have htiles := ht.drop i
  rw [hread.drop] at htiles
  obtain ⟨s, -, hlays, hshows⟩ :=
    exists_lays (hread.drop ▸ List.drop_suffix i j.lexemes) htiles hread.reading
  exact hlays.exists_slice hshows t (hread.tokens ▸ hin)

/-- An integer that is split, a comment that is chomped, and a character of two bytes. -/
def signedAddition : Job where
  source := ⟨"sum.rb", "a += +1 # é\n"⟩
  lexemes := [
    ⟨1, 0, LexemeKind.identifier.name, "a", .cmdArg⟩, ⟨1, 1, LexemeKind.space.name, " ", .cmdArg⟩,
    ⟨1, 2, LexemeKind.operator.name, "+=", .beg⟩, ⟨1, 4, LexemeKind.space.name, " ", .beg⟩,
    ⟨1, 5, LexemeKind.integer.name, "+1", .ended⟩, ⟨1, 7, LexemeKind.space.name, " ", .ended⟩,
    ⟨1, 8, LexemeKind.comment.name, "# é\n", .beg⟩]

def signedAdditionTokens : List Token := [
  ⟨.identifier, .text "a", .sized 0 1⟩, ⟨.opAsgn, .text "+", .sized 2 2⟩,
  ⟨.unaryNum, .text "+", .sized 5 1⟩, ⟨.integer, .integer 1, .sized 6 1⟩,
  ⟨.comment, .text "# é", .sized 8 4⟩]

theorem carries_of_tiles_signedAddition :
    Tiles signedAddition.setting.lines 0 signedAddition.lexemes ∧
      signedAddition.outcome = .tokens signedAdditionTokens ∧
      ∀ t ∈ signedAdditionTokens, ∃ x : String, signedAddition.source.slice t.span = some x ∧
        t.Carries signedAddition.lexemes x := by
  have ht : Tiles signedAddition.setting.lines 0 signedAddition.lexemes := by decide +kernel
  have h : signedAddition.outcome = .tokens signedAdditionTokens := by decide +kernel
  exact ⟨ht, h, carries_of_tiles ht h⟩

end Job

end RubyTokens
