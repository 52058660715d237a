import Mathlib.Data.Int.Notation
import RubyTokens.Proofs.Conversion.Reading
import RubyTokens.Token.Listing

/-! Lines of a listing are legible: whatever a payload or a source text holds, its quoted form has
printable characters only, and so have the numbers and names around it. -/

namespace RubyTokens

/-- Nothing but printable characters. -/
def Legible (cs : List Char) : Prop := ∀ c ∈ cs, isPrintable c = true

instance (cs : List Char) : Decidable (Legible cs) :=
  List.decidableBAll (isPrintable · = true) cs

@[simp] theorem legible_nil : Legible [] := List.forall_mem_nil _

@[simp] theorem legible_cons {c : Char} {cs : List Char} :
    Legible (c :: cs) ↔ isPrintable c = true ∧ Legible cs := List.forall_mem_cons

@[simp] theorem legible_append {as bs : List Char} :
    Legible (as ++ bs) ↔ Legible as ∧ Legible bs := List.forall_mem_append

/-! ### Numbers -/

theorem isPrintable_of_isDigit {c : Char} (h : c.isDigit = true) : isPrintable c = true := by
  have hrange : 48 ≤ c.toNat ∧ c.toNat ≤ 57 := Char.isDigit_iff_toNat.1 h
  rw [isPrintable, if_pos (by omega), decide_eq_true_eq]
  omega

theorem legible_toDigits (n : ℕ) : Legible (Nat.toDigits 10 n) := fun _ hc =>
  isPrintable_of_isDigit (Nat.isDigit_of_mem_toDigits (by decide) (by decide) hc)

theorem legible_zeros (n : ℕ) : Legible (List.replicate n '0') := fun c hc => by
  rw [List.eq_of_mem_replicate hc]
  rfl

theorem legible_decimal (n : ℤ) : Legible (decimal n).toList := by
  have hminus : isPrintable '-' = true := rfl
  rw [decimal, String.toList_ofList]
  split_ifs
  · exact legible_cons.2 ⟨hminus, legible_toDigits _⟩
  · exact legible_toDigits _

theorem legible_of_decimal? {n : ℤ} {s : String} (h : decimal? n = some s) : Legible s.toList := by
  rw [decimal?] at h
  split_ifs at h
  cases h
  exact legible_decimal n

variable {style : DecimalStyle} {ds : List Char}

theorem legible_dropTrailingZeros (h : Legible ds) : Legible (dropTrailingZeros ds) := by
  intro c hc
  rw [dropTrailingZeros, List.mem_reverse] at hc
  exact h c (List.mem_reverse.1 ((List.dropWhile_sublist _).mem hc))

theorem legible_exponentText (e : ℤ) : Legible (exponentText e) := by
  have hdigits := legible_toDigits e.natAbs
  have hsign : isPrintable (if e < 0 then '-' else '+') = true := by split_ifs <;> rfl
  rw [exponentText]
  refine legible_cons.2 ⟨rfl, legible_cons.2 ⟨hsign, ?_⟩⟩
  split_ifs
  · exact legible_cons.2 ⟨rfl, hdigits⟩
  · exact hdigits

theorem legible_decimalText (hmark : Legible style.wholeMark.toList) (h : Legible ds) (e : ℤ) :
    Legible (decimalText style ds e) := by
  have hzero : isPrintable '0' = true := rfl
  have hpoint : isPrintable '.' = true := rfl
  have htake : ∀ n, Legible (ds.take n) := fun n c hc => h c (List.mem_of_mem_take hc)
  have hdrop : ∀ n, Legible (ds.drop n) := fun n c hc => h c (List.mem_of_mem_drop hc)
  unfold decimalText
  dsimp only
  split_ifs
  · simp [hzero, hpoint, legible_zeros, h]
  · simp [legible_zeros, h, hmark]
  · simp [hpoint, htake, hdrop]
  · split
    next d e rest => simp_all [legible_exponentText]
    next => simp [legible_exponentText, h]

theorem legible_text (hmark : Legible style.wholeMark.toList) (x : Binary64) :
    Legible (x.text style).toList := by
  have hminus : isPrintable '-' = true := rfl
  have hzero : isPrintable '0' = true := rfl
  cases x with
  | nan => exact (by decide : Legible "nan".toList)
  | infinite negative =>
    have hinf : Legible "inf".toList := by decide
    have hminusInf : Legible "-inf".toList := by decide
    cases negative with
    | false => exact hinf
    | true => exact hminusInf
  | finite negative m e =>
    have hdigits : ∀ n, Legible (dropTrailingZeros (Nat.toDigits 10 n)) := fun n =>
      legible_dropTrailingZeros (legible_toDigits n)
    have hbody := fun n e => legible_decimalText hmark (hdigits n) e
    rw [Binary64.text, String.toList_ofList]
    split_ifs <;> simp [hminus, hzero, hmark, hbody]

/-! ### Quoted texts -/

theorem isPrintable_hexDigit : ∀ n < 16, isPrintable (hexDigit n) = true := by decide

theorem legible_hexDigits (width n : ℕ) : Legible (hexDigits width n) := by
  induction width generalizing n with
  | zero => exact legible_nil
  | succ width ih =>
    have hlast := isPrintable_hexDigit (n % 16) (Nat.mod_lt n (by decide))
    exact legible_append.2 ⟨ih (n / 16), legible_cons.2 ⟨hlast, legible_nil⟩⟩

theorem legible_codeEscape (n : ℕ) : Legible (codeEscape n) := by
  have hbackslash : isPrintable '\\' = true := rfl
  have hletters : isPrintable 'x' = true ∧ isPrintable 'u' = true ∧ isPrintable 'U' = true :=
    ⟨rfl, rfl, rfl⟩
  rw [codeEscape]
  split_ifs <;> simp [hbackslash, hletters, legible_hexDigits]

theorem legible_quotedChar {q : Char} (hq : isPrintable q = true) (c : Char) :
    Legible (quotedChar q c) := by
  have hbackslash : isPrintable '\\' = true := rfl
  have hletters : isPrintable 'n' = true ∧ isPrintable 'r' = true ∧ isPrintable 't' = true :=
    ⟨rfl, rfl, rfl⟩
  rw [quotedChar]
  split_ifs with hescaped _ _ _ hc
  · rcases hescaped with rfl | rfl <;> simp [hbackslash, hq]
  · simp [hbackslash, hletters]
  · simp [hbackslash, hletters]
  · simp [hbackslash, hletters]
  · simp [hc]
  · exact legible_codeEscape c.toNat

theorem legible_quotedPoint {q : Char} (hq : isPrintable q = true) (p : CodePoint) :
    Legible (quotedPoint q p) := by
  cases p with
  | char c => exact legible_quotedChar hq c
  | half i => exact legible_codeEscape _

theorem isPrintable_quoteOf (t : Text) : isPrintable (quoteOf t) = true := by
  rw [quoteOf]
  split_ifs <;> rfl

theorem legible_quoted (t : Text) : Legible (quoted t).toList := by
  have hquote := isPrintable_quoteOf t
  have hpoints : Legible (t.points.flatMap (quotedPoint (quoteOf t))) := by
    intro c hc
    obtain ⟨p, -, hp⟩ := List.mem_flatMap.1 hc
    exact legible_quotedPoint hquote p c hp
  rw [quoted, String.toList_ofList, quotedChars]
  simp [hquote, hpoints]

/-! ### Lines of tokens -/

theorem legible_toString (n : ℕ) : Legible (toString n).toList := by
  rw [Nat.toString_eq_repr, Nat.toList_repr]
  exact legible_toDigits n

theorem toString_string (s : String) : toString s = s := rfl

theorem Span.legible_pairText (s : Span) : Legible s.pairText.toList := by
  simp only [pairText, String.toList_append, legible_append, toString_string, legible_toString]
  decide

theorem TokenKind.legible_name (k : TokenKind) : Legible k.name.toList := by
  cases k <;> decide

theorem Payload.legible_of_shown {p : Payload} {s : String} (h : p.shown = .ok s) :
    Legible s.toList := by
  cases p with
  | absent =>
    cases h
    decide
  | text t =>
    cases h
    exact legible_quoted t
  | integer n =>
    rw [shown] at h
    cases hn : decimal? n with
    | none => simp [hn] at h
    | some d =>
      rw [hn] at h
      cases h
      exact legible_of_decimal? hn
  | float x =>
    cases h
    exact legible_text (by decide) x
  | rational q =>
    rw [shown] at h
    split at h
    next n d hn hd =>
      cases h
      simp only [String.toList_append, legible_append, legible_of_decimal? hn,
        legible_of_decimal? hd]
      decide
    next => cases h
  | imaginary x =>
    cases h
    rw [String.toList_append]
    exact legible_append.2 ⟨legible_text (by decide) x, by decide⟩

theorem Token.legible_of_line {source : Source} {i : ℕ} {t : Token} {s : String}
    (h : t.line source i = .ok s) : Legible s.toList := by
  rw [line] at h
  obtain ⟨payload, hpayload, h⟩ := exists_of_bind h
  obtain ⟨text, -, h⟩ := exists_of_bind h
  cases h
  simp only [String.toList_append, legible_append, toString_string, legible_toString,
    t.kind.legible_name, Payload.legible_of_shown hpayload, t.span.legible_pairText,
    legible_quoted]
  decide

end RubyTokens
