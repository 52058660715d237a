import Mathlib.Data.List.Count
import RubyTokens.Proofs.Conversion.Place
import RubyTokens.Proofs.Source.Lines

/-! The line below a heredoc's opener. The body of a heredoc stands on the line below its opener,
and the cursor looks for it behind the first lexeme that ends a line by its kind. But a line feed
may stand in other lexemes too: in space that continues a line, in a string, in a list of words. If
lexemes lie end to end and each one names the line that it begins on, the next line begins behind
the first lexeme with a line feed; so the cursor finds it if, and only if, the lexeme that it stops
at is the first such one. -/

namespace RubyTokens

/-! ### Lines of lexemes -/

namespace Lexeme

/-- Whether the lexeme's text goes on to another line. -/
def hasLineFeed (l : Lexeme) : Bool := l.text.points.contains (.char '\n')

/-- The number of lines that the lexeme's text goes down. -/
def lineFeeds (l : Lexeme) : ℕ := l.text.points.count (.char '\n')

/-- The lexeme's position names the line that the lexeme begins on. -/
def NamesLine (lines : LineTable) (l : Lexeme) : Prop :=
  ∃ o ∈ (lines.offset l.line l.column).toOption, l.line = lines.source.lineAt o

instance (lines : LineTable) (l : Lexeme) : Decidable (l.NamesLine lines) :=
  inferInstanceAs (Decidable (∃ o ∈ (lines.offset l.line l.column).toOption, _))

variable {lines : LineTable} {l : Lexeme} {o : ℕ} {x : String}

theorem lineFeeds_eq (h : l.text = x) : l.lineFeeds = x.toList.count '\n' := by
  have hinj : Function.Injective CodePoint.char := fun _ _ h => CodePoint.char.inj h
  rw [lineFeeds, h, Text.points_ofString, List.count_map_of_injective _ _ hinj]

theorem lineFeeds_pos_iff : 0 < l.lineFeeds ↔ l.hasLineFeed = true := by
  rw [lineFeeds, List.count_pos_iff, hasLineFeed, List.contains_iff_mem]

theorem NamesLine.eq (h : l.NamesLine lines) (ho : lines.offset l.line l.column = .ok o) :
    l.line = lines.source.lineAt o := by
  obtain ⟨o', ho', hline⟩ := h
  rw [ho] at ho'
  cases ho'
  exact hline

end Lexeme

/-- The index of the first lexeme that begins on a line below that of the lexeme at an index; the
number of lexemes if there is none. -/
def nextLine (ls : List Lexeme) (i : ℕ) : ℕ :=
  match ls.drop i with
  | [] => ls.length
  | l :: rest => i + 1 + rest.findIdx (l.line < ·.line)

variable {lines : LineTable} {ls rest : List Lexeme} {l x : Lexeme} {o k : ℕ}

/-- Behind lexemes that lie end to end the line is farther down by all their line feeds. -/
theorem Tiles.lineAt_extent (h : Tiles lines o ls) :
    lines.source.lineAt (o + extent ls) =
      lines.source.lineAt o + (ls.map Lexeme.lineFeeds).sum := by
  induction h with
  | nil o => rfl
  | @cons o l x rest position text stands behind ih =>
    rw [extent_cons, Lexeme.size_eq text, List.map_cons, List.sum_cons, Lexeme.lineFeeds_eq text,
      ← Nat.add_assoc, ih, Source.lineAt_add stands, Nat.add_assoc]

/-- A lexeme begins on a line below if one of those before it has a line feed. -/
theorem Tiles.line_lt_iff (ht : Tiles lines o (l :: rest))
    (hn : ∀ y ∈ l :: rest, y.NamesLine lines) (hx : rest[k]? = some x) :
    l.line < x.line ↔ ∃ y ∈ (l :: rest).take (k + 1), y.hasLineFeed = true := by
  have hl := (hn l List.mem_cons_self).eq (tiles_cons_iff.1 ht).1
  have htail := ht.drop (k + 1)
  obtain ⟨tail, hdrop⟩ : ∃ tail, (l :: rest).drop (k + 1) = x :: tail := by
    rw [List.drop_succ_cons]
    exact List.head?_eq_some_iff.1 (List.head?_drop ▸ hx)
  rw [hdrop] at htail
  have hline := (hn x (List.mem_cons_of_mem _ (List.mem_of_getElem? hx))).eq
    (tiles_cons_iff.1 htail).1
  rw [(ht.take (k + 1)).lineAt_extent] at hline
  have hsum : 0 < (((l :: rest).take (k + 1)).map Lexeme.lineFeeds).sum ↔
      ∃ y ∈ (l :: rest).take (k + 1), y.hasLineFeed = true := by
    simp only [List.sum_pos_iff_exists_pos_nat, List.mem_map, exists_exists_and_eq_and,
      Lexeme.lineFeeds_pos_iff]
  rw [← hsum]
  omega

/-- The next line begins behind the first lexeme that has a line feed. -/
theorem Tiles.findIdx_line_lt (ht : Tiles lines o (l :: rest))
    (hn : ∀ y ∈ l :: rest, y.NamesLine lines) :
    rest.findIdx (l.line < ·.line) =
      min rest.length ((l :: rest).findIdx Lexeme.hasLineFeed) := by
  have hbelow : ∀ k (hk : k < rest.length), decide (l.line < rest[k].line) = true ↔
      (l :: rest).findIdx Lexeme.hasLineFeed ≤ k := by
    intro k hk
    rw [decide_eq_true_iff, ht.line_lt_iff hn (List.getElem?_eq_getElem hk),
      ← List.findIdx_lt_length, List.findIdx_take, List.length_take, List.length_cons]
    omega
  generalize (l :: rest).findIdx Lexeme.hasLineFeed = m at hbelow
  rcases Nat.lt_or_ge m rest.length with hm | hm
  · rw [Nat.min_eq_right (Nat.le_of_lt hm), List.findIdx_eq hm]
    refine ⟨(hbelow m hm).2 (Nat.le_refl m), fun j hj => ?_⟩
    have := mt (hbelow j (Nat.lt_trans hj hm)).1 (by omega)
    simpa using this
  · rw [Nat.min_eq_left hm, List.findIdx_eq_length]
    intro y hy
    obtain ⟨k, hk, rfl⟩ := List.getElem_of_mem hy
    have := mt (hbelow k hk).1 (by omega)
    simpa using this

/-- The first hit of a search, cut off at the last item, tells the items before it from the hit. -/
theorem eq_min_findIdx_iff {α : Type} {p : α → Bool} {a : α} {as : List α} {d : ℕ}
    (hd : d ≤ as.length) : d = min as.length ((a :: as).findIdx p) ↔
      ∀ k x, (a :: as)[k]? = some x → k ≤ d → k < as.length → (p x = true ↔ k = d) := by
  constructor
  · rintro hmin k x hx hk hlt
    obtain ⟨hk', rfl⟩ := List.getElem?_eq_some_iff.1 hx
    rcases Nat.lt_or_ge k ((a :: as).findIdx p) with hbefore | hat
    · rw [List.not_of_lt_findIdx hbefore]
      exact ⟨nofun, by omega⟩
    · obtain rfl : k = (a :: as).findIdx p := by omega
      exact ⟨fun _ => by omega, fun _ => List.findIdx_getElem⟩
  · intro h
    have hle : d ≤ (a :: as).findIdx p := by
      by_contra hlt
      have hhit : (a :: as).findIdx p < (a :: as).length := by rw [List.length_cons]; omega
      have := (h _ _ (List.getElem?_eq_getElem hhit) (by omega) (by omega)).1 List.findIdx_getElem
      omega
    rcases Nat.lt_or_ge d as.length with hlt | hge
    · have hget := List.getElem?_eq_getElem (l := a :: as) (i := d) (Nat.lt_succ_of_lt hlt)
      have hpd := (h d _ hget (Nat.le_refl d) hlt).2 rfl
      have : ¬ d < (a :: as).findIdx p := fun hbefore => by
        rw [List.not_of_lt_findIdx hbefore] at hpd
        cases hpd
      omega
    · omega

/-! ### Where a body is looked for -/

namespace Cursor

variable {c : Cursor} {i : ℕ} {t : Int}

/-- An opener that the cursor leaves has a line end behind it, and its body is looked for there. -/
theorem At.exists_of_openHeredoc (h : c.At i (l :: rest)) (hr : c.resume = none)
    (hp : c.pending = none) (ht : c.openHeredoc.cursor.pending = some t) :
    ∃ e < rest.length, rest.findIdx? Lexeme.endsLine = some e ∧ t = (i + 1 + e + 1 : ℕ) := by
  have hbody : c.bodyStart =
      .ok ((rest.findIdx? Lexeme.endsLine).map fun k => ((i + 1 + k : ℕ) : Int) + 1) := by
    rw [bodyStart, hr, h.findLineEnd]
    cases rest.findIdx? Lexeme.endsLine <;> rfl
  cases he : rest.findIdx? Lexeme.endsLine with
  | none =>
    have hopen : c.openHeredoc = { cursor := c } := by
      rw [openHeredoc, hbody, he]
      rfl
    rw [hopen, hp] at ht
    cases ht
  | some e =>
    have hopen : c.openHeredoc.cursor.pending = some (((i + 1 + e : ℕ) : Int) + 1) := by
      rw [openHeredoc, hbody, he]
      simp only [Option.map_some, jump, hp, Moved.noting]
    rw [hopen] at ht
    exact ⟨e, (List.findIdx?_eq_some_iff_getElem.1 he).1, rfl, (Option.some.inj ht).symm⟩

/-- The body of a heredoc is looked for on the line below the opener if, and only if, no lexeme from
the opener on has a line feed but the one right before the body; the last of all lexemes is not
looked at, since nothing is below it. -/
theorem openHeredoc_eq_nextLine_iff (hi : c.index = i) (hl : c.lexemes[i]? = some l)
    (htiles : Tiles lines o c.lexemes) (hn : ∀ x ∈ c.lexemes, x.NamesLine lines)
    (hr : c.resume = none) (hp : c.pending = none)
    (ht : c.openHeredoc.cursor.pending = some t) :
    t = nextLine c.lexemes i ↔ ∀ k x, c.lexemes[k]? = some x → i ≤ k → (k : Int) < t →
      k + 1 < c.lexemes.length → (x.hasLineFeed = true ↔ (k : Int) + 1 = t) := by
  obtain ⟨rest, hdrop⟩ : ∃ rest, c.lexemes.drop i = l :: rest :=
    List.head?_eq_some_iff.1 (List.head?_drop ▸ hl)
  obtain ⟨e, he, -, rfl⟩ := At.exists_of_openHeredoc ⟨hi, hdrop⟩ hr hp ht
  have hlength := congrArg List.length hdrop
  rw [List.length_drop, List.length_cons] at hlength
  have hnext : nextLine c.lexemes i = i + 1 + min rest.length
      ((l :: rest).findIdx Lexeme.hasLineFeed) := by
    rw [nextLine, hdrop, ← Tiles.findIdx_line_lt (hdrop ▸ htiles.drop i)
      fun y hy => hn y (List.mem_of_mem_drop (hdrop ▸ hy))]
  have hfirst := eq_min_findIdx_iff (p := Lexeme.hasLineFeed) (a := l) (d := e + 1) he
  have hget : ∀ k, (l :: rest)[k]? = c.lexemes[i + k]? := fun k => by
    rw [← hdrop, List.getElem?_drop]
  constructor
  · intro h k x hx hik hkt hlt
    obtain ⟨d, rfl⟩ := Nat.exists_eq_add_of_le hik
    rw [hfirst.1 (by omega) d x (hget d ▸ hx) (by omega) (by omega)]
    omega
  · intro h
    have hmin := hfirst.2 fun d x hx hd hlt => by
      rw [h (i + d) x (hget d ▸ hx) (by omega) (by omega) (by omega)]
      omega
    rw [hnext]
    omega

end Cursor

/-- An opener's line that goes on below the body, behind a reverse solidus. -/
def continuedLine : LineTable := .ofSource ⟨"continued.rb", "p <<A, \\\nbody\nA\n1\n"⟩

def continuedLineLexemes : List Lexeme := [
  ⟨1, 0, LexemeKind.identifier.name, "p", .cmdArg⟩, ⟨1, 1, LexemeKind.space.name, " ", .cmdArg⟩,
  ⟨1, 2, LexemeKind.heredocBeg.name, "<<A", .ended⟩, ⟨1, 5, LexemeKind.comma.name, ",", .beg⟩,
  ⟨1, 6, LexemeKind.space.name, " ", .beg⟩, ⟨1, 7, LexemeKind.space.name, "\\\n", .beg⟩,
  ⟨2, 0, LexemeKind.tstringContent.name, "body\n", .beg⟩,
  ⟨3, 0, LexemeKind.heredocEnd.name, "A\n", .beg⟩,
  ⟨4, 0, LexemeKind.integer.name, "1", .ended⟩, ⟨4, 1, LexemeKind.newline.name, "\n", .beg⟩]

namespace Cursor

theorem openHeredoc_eq_nextLine_iff_continuedLine :
    let c : Cursor := { lexemes := continuedLineLexemes, index := 2 }
    c.openHeredoc.cursor.pending = some 10 ∧ ((10 : Int) = nextLine c.lexemes 2 ↔
      ∀ (k : ℕ) x, c.lexemes[k]? = some x → 2 ≤ k → (k : Int) < 10 → k + 1 < c.lexemes.length →
        (x.hasLineFeed = true ↔ (k : Int) + 1 = 10)) := by
  intro c
  have ht : c.openHeredoc.cursor.pending = some 10 := by decide +kernel
  have htiles : Tiles continuedLine 0 c.lexemes := by decide +kernel
  have hn : ∀ x ∈ c.lexemes, x.NamesLine continuedLine := by decide +kernel
  exact ⟨ht, openHeredoc_eq_nextLine_iff rfl rfl htiles hn rfl rfl ht⟩

/-- The body stands on the next line, at index 6, but is looked for behind all lexemes. -/
theorem openHeredoc_continuedLine :
    let c : Cursor := { lexemes := continuedLineLexemes, index := 2 }
    Tiles continuedLine 0 c.lexemes ∧ (∀ x ∈ c.lexemes, x.NamesLine continuedLine) ∧
      c.openHeredoc.cursor.pending = some 10 ∧ nextLine c.lexemes 2 = 6 := by
  decide +kernel

end Cursor

end RubyTokens
