import Mathlib.Algebra.GroupWithZero.Nat
import Mathlib.Data.List.Basic
import RubyTokens.Lexeme.Basic
import RubyTokens.Proofs.Source.Slice
import RubyTokens.Text.Lines

/-! Lexemes that lie end to end in a source. Each one's text stands in the source at the byte that
its position denotes, and the next one begins where it stops. Then the joined texts of lexemes in a
row stand where the first of them does, so a range over all of them has their text. -/

namespace RubyTokens

namespace Text

@[simp] theorem points_join (ts : List Text) : (join ts).points = ts.flatMap points := rfl

theorem eq_of_points {a b : Text} (h : a.points = b.points) : a = b := congrArg Text.mk h

theorem append_nil (t : Text) : t = t ++ (⟨[]⟩ : Text) :=
  eq_of_points (List.append_nil t.points).symm

theorem join_singleton (t : Text) : join [t] = t := eq_of_points (List.append_nil t.points)

theorem join_cons (t : Text) (ts : List Text) : join (t :: ts) = t ++ join ts := rfl

theorem ofString_append (x y : String) : ofString (x ++ y) = ofString x ++ ofString y :=
  eq_of_points (by simp)

/-- The parts of a string are strings. -/
theorem exists_of_append {z : String} {t t' : Text} (h : ofString z = t ++ t') :
    ∃ x y : String, t = x ∧ t' = y ∧ z = x ++ y := by
  obtain ⟨as, bs, hz, has, hbs⟩ := List.map_eq_append_iff.1 (congrArg points h)
  refine ⟨String.ofList as, String.ofList bs, eq_of_points ?_, eq_of_points ?_, ?_⟩
  · rw [points_ofString, String.toList_ofList, has]
  · rw [points_ofString, String.toList_ofList, hbs]
  · rw [← String.ofList_toList (s := z), hz, String.ofList_append]

theorem exists_of_head? {x : String} {c : Char} (h : (ofString x).points.head? = some (.char c)) :
    ∃ y, x = String.singleton c ++ y := by
  rw [points_ofString, List.head?_map] at h
  obtain ⟨c', hc, heq⟩ := Option.map_eq_some_iff.1 h
  cases heq
  obtain ⟨cs, hcs⟩ := List.head?_eq_some_iff.1 hc
  exact ⟨String.ofList cs, by
    rw [← String.ofList_toList (s := x), hcs, String.singleton_eq_ofList, ← String.ofList_append,
      List.singleton_append]⟩

end Text

/-! ### Positions -/

namespace LineTable

variable {t : LineTable} {line column : Int} {o k n : ℕ} {span : Span}

theorem offset_eq_ok_iff : t.offset line column = .ok o ↔
    1 ≤ line ∧ ∃ start, t.starts[(line - 1).toNat]? = some start ∧ (start : Int) + column = o := by
  unfold offset
  split_ifs with hline
  · exact ⟨nofun, fun h => absurd h.1 (by omega)⟩
  cases t.starts[(line - 1).toNat]? with
  | none => simp
  | some start =>
    have hpos : 1 ≤ line := by omega
    simp only [hpos, true_and, Option.some.injEq, exists_eq_left', readSize]
    split_ifs with hneg
    · exact ⟨nofun, fun h => by omega⟩
    · simp only [Except.mapError, Except.ok.injEq]
      omega

theorem offset_add (h : t.offset line column = .ok o) (k : ℕ) :
    t.offset line (column + k) = .ok (o + k : ℕ) := by
  obtain ⟨hline, start, hstart, heq⟩ := offset_eq_ok_iff.1 h
  exact offset_eq_ok_iff.2 ⟨hline, start, hstart, by omega⟩

/-- A range is made of the bytes from a position on, if the source has that many. -/
theorem span_eq_ok_iff : t.span line column n = .ok span ↔
    ∃ o, t.offset line column = .ok o ∧ o + n ≤ t.source.byteLength ∧ span = .sized o n := by
  unfold LineTable.span
  cases t.offset line column with
  | error e => exact ⟨nofun, fun ⟨_, h, _⟩ => nomatch h⟩
  | ok o =>
    have hn : ¬ ((n : ℕ) : Int) < 0 := by omega
    have hfull : t.source.fullSpan.contains (.sized o n) = true ↔ o + n ≤ t.source.byteLength := by
      simp only [Source.fullSpan, Span.contains_iff, Span.start_sized, Span.stop_sized]
      omega
    simp only [readSize, hn, ↓reduceIte, bind, Except.bind, Except.mapError, Int.toNat_natCast,
      hfull, pure, Except.pure, Except.ok.injEq, exists_eq_left']
    split_ifs with hle
    · simp [hle, eq_comm]
    · simp [hle]

theorem span_eq (h : t.offset line column = .ok o) (hspan : t.span line column n = .ok span) :
    span = .sized o n := by
  obtain ⟨o', ho', -, rfl⟩ := span_eq_ok_iff.1 hspan
  rw [Except.ok.inj (h.symm.trans ho')]

end LineTable

/-! ### Lexemes end to end -/

/-- The texts of the lexemes stand in the source at their positions, end to end from a byte on. -/
inductive Tiles (lines : LineTable) : ℕ → List Lexeme → Prop
  | nil (o : ℕ) : Tiles lines o []
  | cons {o : ℕ} {l : Lexeme} {x : String} {rest : List Lexeme}
      (position : lines.offset l.line l.column = .ok o) (text : l.text = x)
      (stands : lines.source.Shows o x) (behind : Tiles lines (o + x.utf8ByteSize) rest) :
      Tiles lines o (l :: rest)

/-- The number of bytes of a lexeme. -/
def Lexeme.size (l : Lexeme) : ℕ := l.text.toString.utf8ByteSize

/-- The number of bytes of lexemes in a row. -/
def extent (ls : List Lexeme) : ℕ := (ls.map Lexeme.size).sum

theorem Lexeme.size_eq {l : Lexeme} {x : String} (h : l.text = x) : l.size = x.utf8ByteSize := by
  rw [size, h, Text.toString_ofString]

@[simp] theorem extent_nil : extent [] = 0 := rfl

@[simp] theorem extent_cons (l : Lexeme) (ls : List Lexeme) :
    extent (l :: ls) = l.size + extent ls := List.sum_cons

@[simp] theorem extent_append (xs ys : List Lexeme) :
    extent (xs ++ ys) = extent xs + extent ys := by
  simp [extent]

theorem tiles_cons_iff {lines : LineTable} {o : ℕ} {l : Lexeme} {rest : List Lexeme} :
    Tiles lines o (l :: rest) ↔ lines.offset l.line l.column = .ok o ∧ l.text = l.text.toString ∧
      lines.source.Shows o l.text.toString ∧ Tiles lines (o + l.size) rest := by
  constructor
  · rintro (_ | ⟨position, text, stands, behind⟩)
    rw [Lexeme.size_eq text, text, Text.toString_ofString]
    exact ⟨position, rfl, stands, behind⟩
  · rintro ⟨position, text, stands, behind⟩
    exact .cons position text stands behind

instance decidableTiles (lines : LineTable) :
    (o : ℕ) → (ls : List Lexeme) → Decidable (Tiles lines o ls)
  | o, [] => isTrue (.nil o)
  | o, l :: rest =>
    have := decidableTiles lines (o + l.size) rest
    decidable_of_iff _ tiles_cons_iff.symm

namespace Tiles

variable {lines : LineTable} {o : ℕ} {l : Lexeme} {xs ys : List Lexeme}

/-- The joined texts stand where the lexemes begin. -/
theorem exists_text (h : Tiles lines o xs) : ∃ x : String,
    Text.join (xs.map Lexeme.text) = x ∧ lines.source.Shows o x ∧ extent xs = x.utf8ByteSize := by
  induction h with
  | nil o => exact ⟨"", rfl, Source.shows_empty _ o, rfl⟩
  | @cons o l x rest position text stands hrest ih =>
    obtain ⟨y, hy, hshows, hextent⟩ := ih
    refine ⟨x ++ y, ?_, Source.shows_append.2 ⟨stands, hshows⟩, ?_⟩
    · rw [List.map_cons, Text.join_cons, text, hy, Text.ofString_append]
    · rw [extent_cons, Lexeme.size_eq text, hextent, String.utf8ByteSize_append]

theorem append (h : Tiles lines o (xs ++ ys)) :
    Tiles lines o xs ∧ Tiles lines (o + extent xs) ys := by
  induction xs generalizing o with
  | nil => exact ⟨.nil o, h⟩
  | cons l xs ih =>
    cases h with
    | cons position text stands behind =>
      obtain ⟨hxs, hys⟩ := ih behind
      refine ⟨.cons position text stands hxs, ?_⟩
      rw [extent_cons, Lexeme.size_eq text, ← Nat.add_assoc]
      exact hys

/-- The lexemes from an index on begin behind the bytes of those before it. -/
theorem drop (h : Tiles lines o xs) (i : ℕ) : Tiles lines (o + extent (xs.take i)) (xs.drop i) := by
  rw [← List.take_append_drop i xs] at h
  exact h.append.2

theorem take (h : Tiles lines o xs) (i : ℕ) : Tiles lines o (xs.take i) := by
  rw [← List.take_append_drop i xs] at h
  exact h.append.1

end Tiles

end RubyTokens
