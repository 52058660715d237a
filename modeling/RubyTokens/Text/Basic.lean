/-! Texts of code points. An escape in JSON names one UTF-16 unit, so half of a pair may stand there
without the other half. Such a half is a code point of the text: it is kept, compared and shown like
any other, but it is no character and has no bytes in UTF-8. A text without halves is the same as a
string, and every string is such a text. -/

namespace RubyTokens

/-- A character, or half of a UTF-16 pair on its own, counted from U+D800. -/
inductive CodePoint where
  | char (c : Char)
  | half (offset : Fin 0x800)
  deriving DecidableEq, Repr

namespace CodePoint

def ofNat (n : Nat) : CodePoint :=
  if h : 0xD800 ≤ n ∧ n < 0xE000 then half ⟨n - 0xD800, by omega⟩ else char (Char.ofNat n)

def toNat : CodePoint → Nat
  | char c => c.toNat
  | half offset => 0xD800 + offset

def isHalf : CodePoint → Bool
  | char _ => false
  | half _ => true

def replacement : Char := '\uFFFD'

/-- The character that stands in where only characters can. Like a half, the replacement character
is no letter, digit, sign or space, so it decides no question otherwise. -/
def toChar : CodePoint → Char
  | char c => c
  | half _ => replacement

end CodePoint

structure Text where
  points : List CodePoint
  deriving DecidableEq, Repr

namespace Text

def ofString (s : String) : Text := ⟨s.toList.map .char⟩

instance : Coe String Text := ⟨ofString⟩

instance : Append Text := ⟨fun a b => ⟨a.points ++ b.points⟩⟩

/-- The texts one behind the other. -/
def join (ts : List Text) : Text := ⟨ts.flatMap points⟩

/-- The characters, with stand-ins for halves. -/
def chars (t : Text) : List Char := t.points.map CodePoint.toChar

def toString (t : Text) : String := String.ofList t.chars

/-- The code points that have the replacement character as their character. -/
def obscured (t : Text) : List CodePoint := t.points.filter (·.toChar = CodePoint.replacement)

/-- Characters as code points, where obscured ones take the places of replacement characters. -/
def uncover : List CodePoint → List Char → List CodePoint
  | p :: ps, c :: cs =>
    if c = CodePoint.replacement then p :: uncover ps cs else .char c :: uncover (p :: ps) cs
  | [], cs => cs.map .char
  | _, [] => []

/-! ### The form in UTF-8 -/

/-- The first halves that stand side by side: the number of code points before them, the first of
them, and the number of those behind it. -/
structure Halves where
  position : Nat
  first : Fin 0x800
  more : Nat
  deriving DecidableEq, Repr

/-- The first halves among code points, of which the first is at `position`. -/
def firstHalves (position : Nat) : List CodePoint → Option Halves
  | [] => none
  | .char _ :: ps => firstHalves (position + 1) ps
  | .half offset :: ps => some ⟨position, offset, (ps.takeWhile CodePoint.isHalf).length⟩

/-- The text as a string, which it is unless it has halves. -/
def string (t : Text) : Except Halves String :=
  match firstHalves 0 t.points with
  | some halves => .error halves
  | none => .ok t.toString

def string? (t : Text) : Option String := t.string.toOption

@[simp] theorem points_append (a b : Text) : (a ++ b).points = a.points ++ b.points := rfl

@[simp] theorem points_ofString (s : String) : (ofString s).points = s.toList.map .char := rfl

@[simp] theorem chars_ofString (s : String) : (ofString s).chars = s.toList := by
  rw [chars, points_ofString, List.map_map]
  exact List.map_id s.toList

@[simp] theorem toString_ofString (s : String) : (ofString s).toString = s := by
  rw [toString, chars_ofString, String.ofList_toList]

theorem ofString_inj {s t : String} (h : ofString s = ofString t) : s = t := by
  rw [← toString_ofString s, h, toString_ofString]

theorem eq_char_of_toChar {p : CodePoint} {c : Char} (hc : c ≠ CodePoint.replacement)
    (h : p.toChar = c) : p = .char c := by
  cases p with
  | char d => exact congrArg CodePoint.char h
  | half i => exact absurd h.symm hc

theorem mem_chars_iff {t : Text} {c : Char} (hc : c ≠ CodePoint.replacement) :
    c ∈ t.chars ↔ .char c ∈ t.points := by
  rw [chars, List.mem_map]
  constructor
  · rintro ⟨p, hp, h⟩
    rwa [← eq_char_of_toChar hc h]
  · intro h
    exact ⟨_, h, rfl⟩

/-- A text that ends in a character is another text with this character behind it. -/
theorem exists_of_chars {t : Text} {cs : List Char} {c : Char} (hc : c ≠ CodePoint.replacement)
    (h : t.chars = cs ++ [c]) :
    ∃ body : Text, t.points = body.points ++ [.char c] ∧ body.chars = cs := by
  obtain ⟨ps, qs, hpoints, hps, hqs⟩ := List.map_eq_append_iff.1 h
  obtain ⟨p, rfl, hp⟩ := List.map_eq_singleton_iff.1 hqs
  exact ⟨⟨ps⟩, by rw [hpoints, eq_char_of_toChar hc hp], hps⟩

theorem firstHalves_map_char (n : Nat) (cs : List Char) :
    firstHalves n (cs.map .char) = none := by
  induction cs generalizing n with
  | nil => rfl
  | cons c cs ih => exact ih (n + 1)

theorem map_char_of_firstHalves {n : Nat} {ps : List CodePoint} (h : firstHalves n ps = none) :
    (ps.map CodePoint.toChar).map .char = ps := by
  induction ps generalizing n with
  | nil => rfl
  | cons p ps ih =>
    cases p with
    | char c => simpa [CodePoint.toChar] using ih h
    | half i => cases h

@[simp] theorem string_ofString (s : String) : (ofString s).string = .ok s := by
  simp [string, firstHalves_map_char]

/-- The texts that are strings are those made of strings. -/
theorem string_eq_ok_iff {t : Text} {s : String} : t.string = .ok s ↔ t = ofString s := by
  constructor
  · intro h
    cases hf : firstHalves 0 t.points with
    | some halves => simp [string, hf] at h
    | none =>
      simp only [string, hf, Except.ok.injEq] at h
      rw [← h, ofString, toString, String.toList_ofList, chars, map_char_of_firstHalves hf]
  · rintro rfl
    exact string_ofString s

theorem string?_eq_some_iff {t : Text} {s : String} : t.string? = some s ↔ t = ofString s := by
  rw [← string_eq_ok_iff, string?]
  cases t.string <;> simp [Except.toOption]

end Text

end RubyTokens
