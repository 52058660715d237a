import Mathlib.Data.Nat.Notation
import Mathlib.Tactic.Common
import RubyTokens.Text.Source

/-! Texts that stand in a source. A text stands at a byte if the slice from there on, as long as the
text, is the text. Two texts one behind the other stand at a byte if, and only if, the first one
stands there and the second one where the first one stops; so a text may be cut between any two
characters, and slices may be put together. -/

namespace RubyTokens

/-! ### Bytes of characters -/

theorem utf8ByteSize_ofList (cs : List Char) : (String.ofList cs).utf8ByteSize = byteCount cs := by
  induction cs with
  | nil => rfl
  | cons c cs ih =>
    have hcons : String.ofList (c :: cs) = String.singleton c ++ String.ofList cs := by
      rw [String.singleton_eq_ofList, ← String.ofList_append, List.singleton_append]
    rw [hcons, String.utf8ByteSize_append, String.utf8ByteSize_singleton, byteCount_cons, ih]

theorem byteCount_toList (x : String) : byteCount x.toList = x.utf8ByteSize := by
  rw [← utf8ByteSize_ofList, String.ofList_toList]

theorem exists_of_dropBytes {n : ℕ} {cs rest : List Char} (h : dropBytes n cs = some rest) :
    ∃ pre, cs = pre ++ rest ∧ byteCount pre = min n (byteCount cs) := by
  induction cs generalizing n with
  | nil => cases h; exact ⟨[], rfl, (Nat.min_zero n).symm⟩
  | cons c cs ih =>
    rw [dropBytes] at h
    split_ifs at h with hn hc
    · cases h
      exact ⟨[], rfl, by rw [hn, Nat.zero_min, byteCount_nil]⟩
    · obtain ⟨pre, rfl, hpre⟩ := ih h
      refine ⟨c :: pre, rfl, ?_⟩
      rw [byteCount_cons, hpre, byteCount_cons]
      omega

theorem exists_of_takeBytes {n : ℕ} {cs xs : List Char} (h : takeBytes n cs = some xs) :
    ∃ post, cs = xs ++ post ∧ byteCount xs = min n (byteCount cs) := by
  induction cs generalizing n xs with
  | nil => cases h; exact ⟨[], rfl, (Nat.min_zero n).symm⟩
  | cons c cs ih =>
    rw [takeBytes] at h
    split_ifs at h with hn hc
    · cases h
      exact ⟨c :: cs, rfl, by rw [hn, Nat.zero_min, byteCount_nil]⟩
    · obtain ⟨ys, hys, rfl⟩ := Option.map_eq_some_iff.1 h
      obtain ⟨post, rfl, hpost⟩ := ih hys
      refine ⟨post, rfl, ?_⟩
      rw [byteCount_cons, hpost, byteCount_cons]
      omega

/-! ### Texts at a byte -/

namespace Source

variable {s : Source} {o : ℕ} {x y : String}

/-- The slice from a byte on is the text. -/
def Shows (s : Source) (o : ℕ) (x : String) : Prop := s.slice (.sized o x.utf8ByteSize) = some x

instance (s : Source) (o : ℕ) (x : String) : Decidable (s.Shows o x) :=
  inferInstanceAs (Decidable (_ = _))

theorem shows_empty (s : Source) (o : ℕ) : s.Shows o "" := by
  have hempty : (Span.sized o ("" : String).utf8ByteSize).isEmpty = true := by simp [Span.isEmpty]
  rw [Shows, slice, if_pos hempty]

/-- A text that is not empty stands at a byte if it stands between so many bytes and the rest. -/
theorem shows_iff (hx : x ≠ "") : s.Shows o x ↔
    ∃ pre post, s.text.toList = pre ++ x.toList ++ post ∧ byteCount pre = o := by
  have hpos : 0 < x.utf8ByteSize := Nat.pos_of_ne_zero (mt String.utf8ByteSize_eq_zero_iff.1 hx)
  have hne : ¬ (Span.sized o x.utf8ByteSize).isEmpty = true := by
    rw [Span.isEmpty, beq_iff_eq, Span.start_sized, Span.stop_sized]
    omega
  have hlength : (Span.sized o x.utf8ByteSize).length = x.utf8ByteSize := Nat.add_sub_cancel_left ..
  rw [Shows, slice, if_neg hne, hlength, Span.start_sized]
  constructor
  · intro h
    obtain ⟨rest, hdrop, h⟩ := Option.bind_eq_some_iff.1 h
    obtain ⟨cs, htake, hx'⟩ := Option.bind_eq_some_iff.1 h
    obtain ⟨pre, htext, hpre⟩ := exists_of_dropBytes hdrop
    obtain ⟨post, rfl, hcs⟩ := exists_of_takeBytes htake
    obtain rfl : String.ofList cs = x := Option.some.inj hx'
    -- There are characters behind `pre`, so it has all the bytes that were to be dropped.
    rw [utf8ByteSize_ofList] at hpos
    rw [htext, byteCount_append, byteCount_append] at hpre
    exact ⟨pre, post, by rw [htext, String.toList_ofList, List.append_assoc], by omega⟩
  · rintro ⟨pre, post, htext, rfl⟩
    have htake := takeBytes_byteCount_append x.toList post
    rw [byteCount_toList] at htake
    rw [htext, List.append_assoc, dropBytes_byteCount_append]
    simp only [Option.bind_eq_bind, Option.bind_some, htake, String.ofList_toList, Option.pure_def]

theorem shows_append : s.Shows o (x ++ y) ↔ s.Shows o x ∧ s.Shows (o + x.utf8ByteSize) y := by
  by_cases hx : x = ""
  · subst hx
    simp [shows_empty]
  by_cases hy : y = ""
  · subst hy
    simp [shows_empty]
  have hxy : x ++ y ≠ "" := by
    rw [Ne, ← String.utf8ByteSize_eq_zero_iff, String.utf8ByteSize_append]
    have := mt String.utf8ByteSize_eq_zero_iff.1 hx
    omega
  rw [shows_iff hx, shows_iff hy, shows_iff hxy, String.toList_append]
  constructor
  · rintro ⟨pre, post, htext, rfl⟩
    refine ⟨⟨pre, y.toList ++ post, by simp only [htext, List.append_assoc], rfl⟩,
      ⟨pre ++ x.toList, post, by simp only [htext, List.append_assoc], ?_⟩⟩
    rw [byteCount_append, byteCount_toList]
  · rintro ⟨⟨pre, post, htext, rfl⟩, pre', post', htext', hpre'⟩
    refine ⟨pre, post', ?_, rfl⟩
    -- Both ways to cut the source have the same number of bytes in front, so they are the same cut.
    have hdrop := dropBytes_byteCount_append pre' (y.toList ++ post')
    have hdrop' := dropBytes_byteCount_append (pre ++ x.toList) post
    rw [hpre', ← List.append_assoc, ← htext', htext, ← byteCount_toList, ← byteCount_append,
      hdrop'] at hdrop
    rw [htext, Option.some.inj hdrop]
    simp only [List.append_assoc]

end Source

end RubyTokens
