import RubyTokens.Lexeme.Row
import RubyTokens.Proofs.Lexeme.States

/-! Rows written and read back. A row holds the kind of a lexeme as a symbol or bare, and the state
as a number or as names. Reading undoes writing but for two rows: a bare kind that begins with a colon
loses it, and names do not tell of the bits beyond the flags. -/

namespace RubyTokens

namespace Row

variable {asSymbol named : Bool}

/-! ### Parts -/

theorem bareKind_eq_self_iff {kind : Text} :
    bareKind kind = kind ↔ kind.points.head? ≠ some (.char ':') := by
  obtain ⟨points⟩ := kind
  unfold bareKind
  split
  next ps hps =>
    have hne : ps ≠ points := by
      intro h
      simpa [h] using congrArg List.length hps
    simp_all
  next hcolon =>
    cases points with
    | nil => simp
    | cons p ps => simpa using fun hp => hcolon ps (by simp [hp])

theorem toState_bits (s : State) : toState (.integer s.bits) = .ok s :=
  congrArg Except.ok (State.ofInt_natCast s.bits)

theorem toState_text_iff {s : State} :
    toState (.text s.text) = .ok s ↔ s.bits < 2 ^ State.flagCount := by
  rw [← State.parse_text_eq_ok_iff, toState]
  cases State.parse s.text <;> simp [Except.mapError]

/-! ### Rows -/

/-- A lexeme with the way its row is written. -/
structure Entry where
  lexeme : Lexeme
  asSymbol : Bool
  named : Bool

/-- The row tells the kind and the state: a bare kind does not begin with a colon, and each bit of a
state in names has one. -/
def Entry.Suits (e : Entry) : Prop :=
  (e.asSymbol = false → e.lexeme.kind.points.head? ≠ some (.char ':')) ∧
    (e.named = true → e.lexeme.stateAfter.bits < 2 ^ State.flagCount)

def Entry.row (e : Entry) : Json := encode e.asSymbol e.named e.lexeme

theorem decode_row_iff (e : Entry) : decode e.row = .ok e.lexeme ↔ e.Suits := by
  obtain ⟨⟨line, column, kind, text, state⟩, asSymbol, named⟩ := e
  have hkind : bareKind (if asSymbol then (":" : Text) ++ kind else kind) = kind ↔
      (asSymbol = false → kind.points.head? ≠ some (.char ':')) := by
    cases asSymbol with
    | true => exact iff_of_true rfl nofun
    | false => simp [bareKind_eq_self_iff]
  have hstate : toState (if named then .text state.text else .integer state.bits) = .ok state ↔
      (named = true → state.bits < 2 ^ State.flagCount) := by
    cases named with
    | true => simp [toState_text_iff]
    | false => simp [toState_bits]
  rw [Entry.Suits, ← hkind, ← hstate, Entry.row, encode, decode]
  simp only [split?, Json.parts?, Json.plain, Option.bind_eq_bind, Option.bind_some]
  cases toState (if named then .text state.text else .integer state.bits) with
  | error e => simp [bind, Except.bind]
  | ok s => simp [bind, Except.bind, pure, Except.pure, toInteger]

/-! ### Lists of rows -/

theorem mapM_map_eq_ok_iff {α β γ ε : Type} {f : α → β} {g : β → Except ε γ} {h : α → γ}
    {xs : List α} : (xs.map f).mapM g = .ok (xs.map h) ↔ ∀ x ∈ xs, g (f x) = .ok (h x) := by
  induction xs with
  | nil => simp [pure, Except.pure]
  | cons x xs ih =>
    rw [List.forall_mem_cons, ← ih, List.map_cons, List.map_cons, List.mapM_cons]
    cases g (f x) with
    | error e => simp [bind, Except.bind]
    | ok y => cases (xs.map f).mapM g <;> simp [bind, Except.bind, pure, Except.pure]

/-- Rows are read as the lexemes they were written for, in their order, if and only if each row tells
the kind and the state of its lexeme. -/
theorem decodeAll_rows_iff (entries : List Entry) :
    decodeAll (entries.map Entry.row) = .ok (entries.map Entry.lexeme) ↔
      ∀ e ∈ entries, e.Suits := by
  rw [decodeAll, mapM_map_eq_ok_iff]
  exact forall₂_congr fun e _ => decode_row_iff e

end Row

end RubyTokens
