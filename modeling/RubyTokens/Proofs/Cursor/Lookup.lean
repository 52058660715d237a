import Mathlib.Data.Nat.Notation
import Mathlib.Tactic.Common
import RubyTokens.Conversion.Cursor

/-! What a cursor sees from a place among its lexemes. There an index is a natural number, no look
is a fault, and all that is seen lies in the list of the lexemes from that place on. -/

namespace RubyTokens

/-! ### Lists that are read on -/

section

variable {α : Type} {ls xs ys : List α} {x : α} {i : ℕ}

theorem getElem?_of_drop_cons (h : ls.drop i = x :: xs) : ls[i]? = some x := by
  rw [← List.head?_drop, h, List.head?_cons]

theorem drop_of_drop_cons (h : ls.drop i = x :: xs) : ls.drop (i + 1) = xs := by
  rw [← List.drop_drop, h, List.drop_one, List.tail_cons]

theorem drop_of_drop_append (h : ls.drop i = xs ++ ys) : ls.drop (i + xs.length) = ys := by
  rw [← List.drop_drop, h, List.drop_left]

end

namespace Cursor

theorem lexemeAt_of_getElem? {c : Cursor} {i : ℕ} {l : Lexeme} (h : c.lexemes[i]? = some l) :
    c.lexemeAt i = .ok l := by
  have hi : ¬ (i : Int) < 0 := by omega
  simp [lexemeAt, hi, h]

theorem search_natCast (c : Cursor) (p : Lexeme → Bool) (count i : ℕ)
    (h : c.lexemes.length = i + count) :
    c.search p count i =
      .ok (((c.lexemes.drop i).findIdx? p).map fun k => ((i + k : ℕ) : Int)) := by
  induction count generalizing i with
  | zero =>
    rw [List.drop_eq_nil_of_le (by omega)]
    rfl
  | succ count ih =>
    have hlt : i < c.lexemes.length := by omega
    rw [search, lexemeAt_of_getElem? (List.getElem?_eq_getElem hlt),
      List.drop_eq_getElem_cons hlt, List.findIdx?_cons]
    by_cases hp : p c.lexemes[i] = true
    · simp [hp, bind, Except.bind, pure, Except.pure]
    · have hi : (i : Int) + 1 = ((i + 1 : ℕ) : Int) := by omega
      simp only [hp, bind, Except.bind, Bool.false_eq_true, ↓reduceIte, hi, ih (i + 1) (by omega)]
      cases (c.lexemes.drop (i + 1)).findIdx? p with
      | none => rfl
      | some k => simp only [Option.map_some]; congr 2; omega

/-- A search looks through the rest of the lexemes in their order. -/
theorem searchFrom_natCast (c : Cursor) (p : Lexeme → Bool) (i : ℕ) :
    c.searchFrom p i = .ok (((c.lexemes.drop i).findIdx? p).map fun k => ((i + k : ℕ) : Int)) := by
  unfold searchFrom
  by_cases hi : i ≤ c.lexemes.length
  · have hcount : (c.size - (i : Int)).toNat = c.lexemes.length - i := by simp only [size]; omega
    rw [hcount]
    exact search_natCast c p _ i (by omega)
  · have hcount : (c.size - (i : Int)).toNat = 0 := by simp only [size]; omega
    rw [hcount, List.drop_eq_nil_of_le (by omega)]
    rfl

/-- The cursor is at index `i`, and `ls` are the lexemes from there on. -/
structure At (c : Cursor) (i : ℕ) (ls : List Lexeme) : Prop where
  index : c.index = i
  ahead : c.lexemes.drop i = ls

namespace At

variable {c : Cursor} {i : ℕ} {ls : List Lexeme}

theorem getElem? (h : c.At i ls) (k : ℕ) : c.lexemes[i + k]? = ls[k]? := by
  rw [← List.getElem?_drop, h.ahead]

theorem current {l : Lexeme} {rest : List Lexeme} (h : c.At i (l :: rest)) :
    c.current = .ok l := by
  rw [Cursor.current, h.index]
  exact lexemeAt_of_getElem? (h.getElem? 0)

theorem peek (h : c.At i ls) (k : ℕ) : c.peek k = .ok ls[k]? := by
  unfold Cursor.peek
  rw [h.index, ← Int.natCast_add, ← h.getElem?]
  split_ifs with hk
  · have hle : c.lexemes.length ≤ i + k := by simp only [size] at hk; omega
    rw [List.getElem?_eq_none hle]
  · have hlt : i + k < c.lexemes.length := by simp only [size] at hk; omega
    have hget : c.lexemes[i + k]? = some c.lexemes[i + k] := List.getElem?_eq_getElem hlt
    rw [lexemeAt_of_getElem? hget, hget]
    rfl

theorem peekKind (h : c.At i ls) (k : ℕ) : c.peekKind k = .ok (ls[k]?.map Lexeme.kind) := by
  rw [Cursor.peekKind, h.peek]
  rfl

theorem findForward (h : c.At i ls) (kind : Text) :
    c.findForward kind =
      .ok ((ls.findIdx? (·.kind == kind)).map fun k => ((i + k : ℕ) : Int)) := by
  rw [Cursor.findForward, h.index, searchFrom_natCast, h.ahead]

theorem findLineEnd {l : Lexeme} {rest : List Lexeme} (h : c.At i (l :: rest)) :
    c.findLineEnd =
      .ok ((rest.findIdx? Lexeme.endsLine).map fun k => ((i + 1 + k : ℕ) : Int)) := by
  have hi : c.index + 1 = ((i + 1 : ℕ) : Int) := by rw [h.index]; rfl
  rw [Cursor.findLineEnd, hi, searchFrom_natCast, drop_of_drop_cons h.ahead]

theorem runThrough (h : c.At i ls) (k : ℕ) :
    c.runThrough ((i + k : ℕ) : Int) = ls.take (k + 1) := by
  have hstart : c.bound i = min i c.lexemes.length := by
    simp only [bound, size]; split_ifs <;> omega
  have hstop : c.bound (((i + k : ℕ) : Int) + 1) = min (i + k + 1) c.lexemes.length := by
    simp only [bound, size]; split_ifs <;> omega
  rw [Cursor.runThrough, h.index, hstart, hstop, ← List.take_eq_take_min, List.drop_take, ← h.ahead]
  rcases Nat.le_total i c.lexemes.length with hi | hi
  · rw [Nat.min_eq_left hi]
    congr 1
    omega
  · rw [Nat.min_eq_right hi, List.drop_eq_nil_of_le hi, List.drop_length, List.take_nil,
      List.take_nil]

end At

end Cursor

end RubyTokens
