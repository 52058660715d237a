import Mathlib.Tactic.Common
import RubyTokens.Proofs.Conversion.Reading

/-! Where the parts of a heredoc stand. The lexer reports a line to its end before it reports the
bodies of the heredocs that were opened on it; in the order of the grammar each body stands behind
its opener. A segment is what stands on a line between two openers, or between an opener and an end
of the line. Folds stay within a segment, and within a body. -/

namespace RubyTokens

/-- A colon before a plain symbol takes the next lexeme with it, whatever that is. -/
def Lexeme.isColon (l : Lexeme) : Bool := l.hasKind .symbeg && decide (l.text = ":")

/-- Whether a lexeme opens or ends a heredoc, or ends a line. -/
def Lexeme.isFence (l : Lexeme) : Bool :=
  l.hasKind .heredocBeg || l.hasKind .heredocEnd || l.endsLine

/-- No heredoc and no data section begins or ends here, and each embedded document that begins here
ends here. -/
structure Plain (xs : List Lexeme) : Prop where
  kinds : ∀ l ∈ xs, ∀ k ∈ [LexemeKind.heredocBeg, .heredocEnd, .dataEnd], l.hasKind k = false
  embdoc : ∀ front l back, xs = front ++ l :: back → l.hasKind .embdocBeg = true →
    ∃ e ∈ back, e.hasKind .embdocEnd = true

/-- The last lexeme does not take the next one with it. -/
def Closed (xs : List Lexeme) : Prop := ∀ l ∈ xs.getLast?, l.isColon = false

instance (xs : List Lexeme) : Decidable (Closed xs) :=
  inferInstanceAs (Decidable (∀ l ∈ xs.getLast?, l.isColon = false))

/-- A part of one line. -/
structure Segment (xs : List Lexeme) : Prop extends Plain xs where
  line : ∀ l ∈ xs, l.endsLine = false

/-- No heredoc and no data section begins or ends here. -/
def Unmarked (xs : List Lexeme) : Prop :=
  ∀ l ∈ xs, ∀ k ∈ [LexemeKind.heredocBeg, .heredocEnd, .dataEnd], l.hasKind k = false

/-- A list that is read from its beginning is read to its end, and no fold goes on behind it. -/
def Contained (options : Options) : List Lexeme → Prop
  | [] => True
  | l :: rest =>
    (l.isColon = true → rest ≠ []) ∧
      (l.hasKind .embdocBeg = true → ∃ e ∈ rest, e.hasKind .embdocEnd = true) ∧
      Contained options (rest.drop (Stride.of options l rest).count)
termination_by ls => ls.length

/-- A part of a line, or a body, that is read for itself. -/
structure Part (options : Options) (xs : List Lexeme) : Prop where
  unmarked : Unmarked xs
  contained : Contained options xs

/-- A heredoc that is opened on a line, with the segment behind its opener. -/
structure Heredoc where
  opener : Lexeme
  tail : List Lexeme
  body : List Lexeme
  terminator : Lexeme

/-- A line with the heredocs that are opened on it. -/
structure LineGroup where
  lead : List Lexeme
  heredocs : List Heredoc
  lineEnd : Lexeme

/-- What the lexer reports of a line's heredocs before the line ends. -/
def openings (hs : List Heredoc) : List Lexeme := hs.flatMap fun h => h.opener :: h.tail

/-- What the lexer reports of a line's heredocs behind the line's end. -/
def bodies (hs : List Heredoc) : List Lexeme := hs.flatMap fun h => h.body ++ [h.terminator]

namespace Heredoc

/-- The heredoc is opened, and the line does not end up to the next one. -/
structure OnLine (h : Heredoc) : Prop where
  opener : h.opener.hasKind .heredocBeg = true
  line : ∀ l ∈ h.tail, l.endsLine = false

/-- No fold joins a part of the heredoc with what stands behind it. -/
structure Apart (options : Options) (h : Heredoc) : Prop extends h.OnLine where
  tail : Part options h.tail
  body : Part options h.body
  terminator : h.terminator.hasKind .heredocEnd = true

/-- The heredoc's parts are of their kinds, whatever stands in the body. -/
structure Formed (h : Heredoc) : Prop where
  opener : h.opener.hasKind .heredocBeg = true
  tail : Segment h.tail
  tail_closed : Closed h.tail
  body_closed : Closed h.body
  terminator : h.terminator.hasKind .heredocEnd = true

def grammarOrder (h : Heredoc) : List Lexeme := h.opener :: h.body ++ h.terminator :: h.tail

theorem Formed.onLine {h : Heredoc} (hf : h.Formed) : h.OnLine := ⟨hf.opener, hf.tail.line⟩

end Heredoc

namespace LineGroup

/-- No fold joins a part of the line, or of one of its heredocs, with what stands behind it. -/
structure Apart (options : Options) (g : LineGroup) : Prop where
  lead : Part options g.lead
  heredocs : ∀ h ∈ g.heredocs, h.Apart options
  lineEnd : g.lineEnd.endsLine = true

structure Formed (g : LineGroup) : Prop where
  lead : Segment g.lead
  lead_closed : Closed g.lead
  heredocs : ∀ h ∈ g.heredocs, h.Formed
  lineEnd : g.lineEnd.endsLine = true

/-- No heredoc is opened within a heredoc. -/
structure Flat (g : LineGroup) : Prop extends g.Formed where
  bodies : ∀ h ∈ g.heredocs, Plain h.body

def lexerOrder (g : LineGroup) : List Lexeme :=
  g.lead ++ openings g.heredocs ++ g.lineEnd :: bodies g.heredocs

def grammarOrder (g : LineGroup) : List Lexeme :=
  g.lead ++ g.heredocs.flatMap Heredoc.grammarOrder ++ [g.lineEnd]

end LineGroup

/-- Lines and a last segment, as the lexer reports them. -/
def lexerOrder (groups : List LineGroup) (last : List Lexeme) : List Lexeme :=
  groups.flatMap LineGroup.lexerOrder ++ last

/-- Lines and a last segment, with each heredoc's body behind its opener. -/
def grammarOrder (groups : List LineGroup) (last : List Lexeme) : List Lexeme :=
  groups.flatMap LineGroup.grammarOrder ++ last

@[simp] theorem openings_nil : openings [] = [] := rfl

@[simp] theorem openings_cons (h : Heredoc) (hs : List Heredoc) :
    openings (h :: hs) = h.opener :: (h.tail ++ openings hs) := rfl

@[simp] theorem bodies_nil : bodies [] = [] := rfl

@[simp] theorem bodies_cons (h : Heredoc) (hs : List Heredoc) :
    bodies (h :: hs) = h.body ++ h.terminator :: bodies hs := by simp [bodies]

/-! ### Kinds exclude each other -/

namespace Lexeme

theorem hasKind_inj {l : Lexeme} {j k : LexemeKind} (hj : l.hasKind j = true)
    (hk : l.hasKind k = true) : j = k :=
  Option.some.inj ((hasKind_iff.1 hj).symm.trans (hasKind_iff.1 hk))

theorem hasKind_eq_false {l : Lexeme} {j k : LexemeKind} (hj : l.hasKind j = true) (h : j ≠ k) :
    l.hasKind k = false := by
  by_contra hk
  exact h (hasKind_inj hj (Bool.not_eq_false _ ▸ hk))

theorem exists_kind_of_endsLine {l : Lexeme} (h : l.endsLine = true) :
    ∃ k ∈ [LexemeKind.newline, .ignoredNewline, .comment], l.hasKind k = true := by
  unfold endsLine at h
  rcases Bool.or_eq_true _ _ ▸ h with h | h
  · rcases Bool.or_eq_true _ _ ▸ h with h | h
    · exact ⟨_, .head _, h⟩
    · exact ⟨_, .tail _ (.head _), h⟩
  · exact ⟨_, .tail _ (.tail _ (.head _)), (Bool.and_eq_true _ _ ▸ h).1⟩

theorem exists_kind_of_isFence {l : Lexeme} (h : l.isFence = true) :
    ∃ k ∈ [LexemeKind.heredocBeg, .heredocEnd, .newline, .ignoredNewline, .comment],
      l.hasKind k = true := by
  unfold isFence at h
  rcases Bool.or_eq_true _ _ ▸ h with h | h
  · rcases Bool.or_eq_true _ _ ▸ h with h | h
    · exact ⟨_, .head _, h⟩
    · exact ⟨_, .tail _ (.head _), h⟩
  · obtain ⟨k, hk, hl⟩ := exists_kind_of_endsLine h
    exact ⟨k, .tail _ (.tail _ hk), hl⟩

theorem endsLine_of_heredocBeg {l : Lexeme} (h : l.hasKind .heredocBeg = true) :
    l.endsLine = false := by
  by_contra he
  obtain ⟨k, hk, hl⟩ := exists_kind_of_endsLine (Bool.not_eq_false _ ▸ he)
  rw [hasKind_inj hl h] at hk
  exact absurd hk (by decide)

end Lexeme

theorem endsLine_of_mem_openings {hs : List Heredoc} (h : ∀ h ∈ hs, h.OnLine) {l : Lexeme}
    (hl : l ∈ openings hs) : l.endsLine = false := by
  obtain ⟨x, hx, hl⟩ := List.mem_flatMap.1 hl
  rcases List.mem_cons.1 hl with rfl | hl
  · exact Lexeme.endsLine_of_heredocBeg (h x hx).opener
  · exact (h x hx).line l hl

/-! ### Parts of a plain list -/

theorem Plain.suffix {xs ys : List Lexeme} (h : Plain xs) (hs : ys <:+ xs) : Plain ys := by
  obtain ⟨zs, rfl⟩ := hs
  refine ⟨fun l hl => h.kinds l (List.mem_append_right _ hl), ?_⟩
  rintro front l back rfl hl
  exact h.embdoc (zs ++ front) l back (List.append_assoc ..).symm hl

theorem Closed.suffix {xs ys : List Lexeme} (h : Closed xs) (hs : ys <:+ xs) : Closed ys := by
  obtain ⟨zs, rfl⟩ := hs
  intro l hl
  refine h l ?_
  rw [Option.mem_def] at hl ⊢
  rw [List.getLast?_append, hl, Option.some_or]

theorem Plain.contained {xs : List Lexeme} (options : Options) (h : Plain xs) (hc : Closed xs) :
    Contained options xs := by
  fun_induction Contained options xs with
  | case1 => trivial
  | case2 l rest ih =>
    have hsuffix : rest.drop (Stride.of options l rest).count <:+ l :: rest :=
      (List.drop_suffix _ rest).trans (List.suffix_cons l rest)
    refine ⟨?_, h.embdoc [] l rest rfl, ih (h.suffix hsuffix) (hc.suffix hsuffix)⟩
    rintro hcolon rfl
    rw [hc l rfl] at hcolon
    cases hcolon

theorem Plain.part {xs : List Lexeme} (options : Options) (h : Plain xs) (hc : Closed xs) :
    Part options xs :=
  ⟨h.kinds, h.contained options hc⟩

theorem Heredoc.Formed.apart {h : Heredoc} (options : Options) (hf : h.Formed)
    (hb : Plain h.body) : h.Apart options :=
  ⟨hf.onLine, hf.tail.toPlain.part options hf.tail_closed, hb.part options hf.body_closed,
    hf.terminator⟩

theorem LineGroup.Flat.apart {g : LineGroup} (options : Options) (hg : g.Flat) :
    g.Apart options :=
  ⟨hg.lead.toPlain.part options hg.lead_closed,
    fun h hh => (hg.heredocs h hh).apart options (hg.bodies h hh), hg.lineEnd⟩

/-- Where no embedded document begins, only the kinds count. -/
theorem plain_of_forall {xs : List Lexeme} (h : ∀ l ∈ xs, ∀ k ∈ [LexemeKind.heredocBeg, .heredocEnd,
    .dataEnd, .embdocBeg], l.hasKind k = false) : Plain xs where
  kinds l hl k hk := h l hl k (List.mem_append.2 (.inl hk) :
    k ∈ [LexemeKind.heredocBeg, .heredocEnd, .dataEnd] ++ [.embdocBeg])
  embdoc := by
    rintro front l back rfl hbeg
    have hno := h l (List.mem_append_right _ List.mem_cons_self) .embdocBeg (by decide)
    rw [hbeg] at hno
    cases hno

end RubyTokens
