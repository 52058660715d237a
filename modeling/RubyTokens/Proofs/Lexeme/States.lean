import Mathlib.Data.List.Basic
import Mathlib.Data.List.FinRange
import Mathlib.Data.Nat.Bitwise
import RubyTokens.Lexeme.State

/-! States read back from their texts. A text is cut at its bars, each part names a state, and the
union of these states is read. The text of a state names the flags that are set, from the lowest on,
so reading it gives back the state without the bits that have no name. Only the states with such bits
and no flag at all have a text that names nothing. -/

namespace RubyTokens

/-! ### Pieces -/

theorem pieces_eq_splitOn {α : Type} [DecidableEq α] (separator : α) (xs : List α) :
    pieces separator xs = xs.splitOn separator := by
  induction xs with
  | nil => simp [pieces, List.splitOn]
  | cons x xs ih =>
    rw [List.splitOn, List.splitOnP_cons_eq_if_modifyHead, pieces, ih, List.splitOn]
    cases h : xs.splitOnP (· == separator) with
    | nil => exact absurd h (List.splitOnP_ne_nil _ _)
    | cons piece rest => simp

theorem map_intercalate {α β : Type} (f : α → β) (separator : List α) (xss : List (List α)) :
    (separator.intercalate xss).map f = (separator.map f).intercalate (xss.map (List.map f)) := by
  induction xss with
  | nil => rfl
  | cons xs xss ih =>
    cases xss with
    | nil => simp [List.intercalate]
    | cons ys xss => simpa [List.intercalate] using ih

/-- Texts without bars are the pieces of the text that has bars between them. -/
theorem pieces_intercalate {names : List String} (hne : names ≠ [])
    (hbar : ∀ name ∈ names, '|' ∉ name.toList) :
    (pieces (.char '|') (Text.ofString (String.intercalate "|" names)).points).map Text.mk =
      names.map Text.ofString := by
  have hpoints : (Text.ofString (String.intercalate "|" names)).points =
      [CodePoint.char '|'].intercalate (names.map fun name => (Text.ofString name).points) := by
    simp [String.toList_intercalate, map_intercalate, Function.comp_def]
  rw [hpoints, pieces_eq_splitOn, List.splitOn_intercalate, List.map_map]
  · rfl
  · simpa using hbar
  · simpa using hne

namespace State

variable {s t u : State} {parts : List Text}

/-! ### Unions -/

/-- The union of states one after the other. -/
def unions (s : State) (us : List State) : State := us.foldl union s

@[simp] theorem unions_nil : s.unions [] = s := rfl

@[simp] theorem unions_cons {us : List State} : s.unions (u :: us) = (s.union u).unions us := rfl

theorem hasFlag_unions (us : List State) (i : ℕ) :
    (s.unions us).hasFlag i = (s.hasFlag i || us.any (·.hasFlag i)) := by
  induction us generalizing s with
  | nil => simp
  | cons u us ih => simp [ih, hasFlag_union, Bool.or_assoc]

theorem eq_of_hasFlag (h : ∀ i, s.hasFlag i = t.hasFlag i) : s = t := by
  obtain ⟨n⟩ := s
  obtain ⟨m⟩ := t
  exact congrArg State.mk (Nat.eq_of_testBit_eq h)

/-! ### Parts -/

/-- The state that a part names. -/
def ofPart? (part : Text) : Option State := ofName? (nameOfPart part)

/-- The union of the states that are named is read, if each part names one. -/
theorem ofParts_eq_ok_iff :
    ofParts parts s = .ok t ↔ ∃ us, parts.mapM ofPart? = some us ∧ t = s.unions us := by
  induction parts generalizing s with
  | nil => simp [ofParts, eq_comm]
  | cons part parts ih =>
    rw [ofParts]
    cases h : ofName? (nameOfPart part) with
    | none => simp [ofPart?, h]
    | some u => cases hus : parts.mapM ofPart? <;> simp [ofPart?, h, ih, hus]

/-- No name stands for a bit beyond the flags. -/
theorem bits_lt_of_ofName? {name : String} (h : ofName? name = some s) :
    s.bits < 2 ^ flagCount := by
  unfold ofName? at h
  split_ifs at h
  · cases h
    decide
  · obtain ⟨i, hi, rfl⟩ := Option.map_eq_some_iff.1 h
    have hlt := (List.findIdx?_eq_some_iff_getElem.1 hi).1
    rw [Nat.one_shiftLeft]
    exact Nat.pow_lt_pow_right (by decide) hlt

theorem bits_lt_of_ofParts (hs : s.bits < 2 ^ flagCount) (h : ofParts parts s = .ok t) :
    t.bits < 2 ^ flagCount := by
  induction parts generalizing s with
  | nil =>
    cases h
    exact hs
  | cons part parts ih =>
    rw [ofParts] at h
    split at h
    next u hu => exact ih (Nat.or_lt_two_pow hs (bits_lt_of_ofName? hu)) h
    next => cases h

/-- A state that is read has no bits beyond the flags. -/
theorem bits_lt_of_parse {text : Text} (h : parse text = .ok t) : t.bits < 2 ^ flagCount :=
  bits_lt_of_ofParts (by decide) h

/-! ### Names -/

def flagName (i : Fin flagCount) : String := flagNames.get i

/-- A flag by itself. -/
def ofFlag (i : Fin flagCount) : State := ⟨1 <<< (i : ℕ)⟩

/-- The flags that are set, from the lowest on. -/
def flags (s : State) : List (Fin flagCount) := (List.finRange flagCount).filter (s.hasFlag ·)

theorem hasFlag_ofFlag (i : Fin flagCount) (j : ℕ) :
    (ofFlag i).hasFlag j = decide ((i : ℕ) = j) := by
  rw [hasFlag, ofFlag, Nat.one_shiftLeft, Nat.testBit_two_pow]

theorem mem_flags {i : Fin flagCount} : i ∈ s.flags ↔ s.hasFlag i = true := by
  simp [flags]

theorem names_eq (s : State) : s.names = s.flags.map flagName := by
  have hrange : List.range flagCount = (List.finRange flagCount).map Fin.val := by decide
  rw [names, hrange, List.filterMap_map, flags, ← List.filterMap_eq_filter, List.map_filterMap]
  refine List.filterMap_congr fun i _ => ?_
  have hget : flagNames[(i : ℕ)]? = some (flagName i) := List.getElem?_eq_getElem i.isLt
  cases h : s.hasFlag i with
  | true => simp [Option.guard, h, hget]
  | false => simp [Option.guard, h]

theorem ofPart?_flagName : ∀ i, ofPart? (flagName i) = some (ofFlag i) := by decide

theorem bar_notMem_flagName : ∀ i, '|' ∉ (flagName i).toList := by decide

/-- A state without the bits that have no name. -/
def low (s : State) : State := ⟨s.bits % 2 ^ flagCount⟩

theorem hasFlag_low (j : ℕ) : s.low.hasFlag j = (decide (j < flagCount) && s.hasFlag j) :=
  Nat.testBit_mod_two_pow s.bits flagCount j

/-- The flags that are set make up the bits that have a name. -/
theorem unions_flags (s : State) : none.unions (s.flags.map ofFlag) = s.low := by
  refine eq_of_hasFlag fun j => ?_
  have hnone : none.hasFlag j = false := Nat.zero_testBit j
  rw [hasFlag_unions, hasFlag_low, hnone, Bool.false_or, Bool.eq_iff_iff]
  simp only [List.any_map, List.any_eq_true, Function.comp_apply, hasFlag_ofFlag, mem_flags,
    decide_eq_true_eq, Bool.and_eq_true]
  constructor
  · rintro ⟨i, hi, rfl⟩
    exact ⟨i.isLt, hi⟩
  · rintro ⟨hj, hset⟩
    exact ⟨⟨j, hj⟩, hset, rfl⟩

theorem names_ne_nil (h : s.low ≠ none) : s.names ≠ [] := by
  intro hnil
  rw [names_eq, List.map_eq_nil_iff] at hnil
  rw [← unions_flags, hnil] at h
  exact h rfl

/-- Reading the text of a state gives back its bits that have a name, if there are any, or no bits
if it has none. -/
theorem parse_text (h : s = none ∨ s.low ≠ none) : parse s.text = .ok s.low := by
  obtain rfl | hlow := h
  · decide
  have hbits : s.bits ≠ 0 := by
    intro hzero
    apply hlow
    simp [low, none, hzero]
  have hbar : ∀ name ∈ s.names, '|' ∉ name.toList := by
    rw [names_eq]
    simpa using fun i _ => bar_notMem_flagName i
  have hparts : (s.names.map Text.ofString).mapM ofPart? = some (s.flags.map ofFlag) := by
    rw [names_eq]
    induction s.flags with
    | nil => rfl
    | cons i flags ih => simp_all [ofPart?_flagName]
  rw [text, if_neg hbits, parse, pieces_intercalate (names_ne_nil hlow) hbar, ofParts_eq_ok_iff]
  exact ⟨_, hparts, (unions_flags s).symm⟩

/-- A state is read back from its text if each of its bits has a name. -/
theorem parse_text_eq_ok_iff : parse s.text = .ok s ↔ s.bits < 2 ^ flagCount := by
  constructor
  · exact bits_lt_of_parse
  · intro h
    have hlow : s.low = s := congrArg State.mk (Nat.mod_eq_of_lt h)
    have hparse := parse_text (s := s) (hlow.symm ▸ em _)
    rwa [hlow] at hparse

end State

end RubyTokens
