import Mathlib.Data.List.Count
import Mathlib.Tactic.Common
import RubyTokens.Proofs.Source.Tiling

/-! The lines of a source. The line table is made from the places of the line feeds, which are the
same among the characters as in the bytes of the source, since no other character has that byte. It
is the table of the lines that the source is cut into: the lines begin at the sums of their lengths,
one behind the other, and each byte is in one of them. The line of a byte is told by the line feeds
before it. -/

namespace RubyTokens

/-! ### Boundaries -/

theorem lineBoundaries_append (o : ℕ) (as bs : List Char) :
    lineBoundaries o (as ++ bs) = lineBoundaries o as ++ lineBoundaries (o + byteCount as) bs := by
  induction as generalizing o with
  | nil => rfl
  | cons c as ih =>
    simp only [List.cons_append, lineBoundaries, ih, byteCount_cons, Nat.add_assoc]
    split_ifs <;> rfl

theorem length_lineBoundaries (o : ℕ) (cs : List Char) :
    (lineBoundaries o cs).length = cs.count '\n' := by
  induction cs generalizing o with
  | nil => rfl
  | cons c cs ih =>
    rw [lineBoundaries, List.count_cons]
    split_ifs with hc <;> simp_all

/-- A boundary lies behind the line feed that it belongs to. -/
theorem mem_lineBoundaries {o b : ℕ} {cs : List Char} (h : b ∈ lineBoundaries o cs) :
    o < b ∧ b ≤ o + byteCount cs := by
  induction cs generalizing o with
  | nil => cases h
  | cons c cs ih =>
    have hpos := c.utf8Size_pos
    rw [lineBoundaries] at h
    rw [byteCount_cons]
    split_ifs at h
    · rcases List.mem_cons.1 h with rfl | h
      · omega
      · have := ih h
        omega
    · have := ih h
      omega

/-! ### Bytes -/

/-- The bytes of the characters in UTF-8. -/
def encoded (cs : List Char) : List UInt8 := cs.flatMap String.utf8EncodeChar

theorem data_toByteArray (x : String) : x.toByteArray.data.toList = encoded x.toList := by
  rw [← String.utf8Encode_toList, List.utf8Encode, List.toList_data_toByteArray, encoded]

/-- The byte of a line feed is in no other character. -/
theorem lineFeed_mem_utf8EncodeChar {c : Char} (h : 10 ∈ String.utf8EncodeChar c) : c = '\n' := by
  have hbyte : ∀ n, UInt8.ofNat n = 10 → n % 256 = 10 := fun n hn => by
    simpa using congrArg UInt8.toNat hn
  have hc : c.val.toNat = 10 := by
    rw [String.utf8EncodeChar] at h
    split_ifs at h with h1 h2 h3 <;>
      simp only [List.mem_cons, List.not_mem_nil, or_false] at h
    · have := hbyte _ h.symm
      omega
    · rcases h with h | h <;> have := hbyte _ h.symm <;> omega
    · rcases h with h | h | h <;> have := hbyte _ h.symm <;> omega
    · rcases h with h | h | h | h <;> have := hbyte _ h.symm <;> omega
  exact Char.ext (UInt32.toNat_inj.1 hc)

theorem utf8EncodeChar_lineFeed : String.utf8EncodeChar '\n' = [10] := by decide

/-- A search of the bytes for 0x0A finds the bytes in front of the boundaries. -/
theorem lineBoundaries_eq_idxsOf (o : ℕ) (cs : List Char) :
    lineBoundaries o cs = (encoded cs).idxsOf 10 (o + 1) := by
  induction cs generalizing o with
  | nil => rfl
  | cons c cs ih =>
    have hcons : encoded (c :: cs) = String.utf8EncodeChar c ++ encoded cs := List.flatMap_cons
    rw [lineBoundaries, hcons, List.idxsOf_append, String.length_utf8EncodeChar, ih,
      Nat.add_right_comm]
    by_cases hc : c = '\n'
    · subst hc
      rw [utf8EncodeChar_lineFeed, if_pos rfl]
      rfl
    · have hnone : (String.utf8EncodeChar c).idxsOf 10 (o + 1) = [] :=
        List.idxsOf_eq_nil_iff.2 fun x hx => beq_eq_false_iff_ne.2 fun h =>
          hc (lineFeed_mem_utf8EncodeChar (h ▸ hx))
      rw [if_neg hc, hnone, List.nil_append]

/-- Up to a place a search has found as many elements as stand before the place. -/
theorem countP_idxsOf {α : Type} [BEq α] (a : α) (o p : ℕ) (xs : List α) :
    (xs.idxsOf a (o + 1)).countP (· ≤ o + p) = (xs.take p).count a := by
  have hbefore : ∀ i ∈ (xs.take p).idxsOf a (o + 1), decide (i ≤ o + p) = true := fun i hi => by
    have hlt := List.lt_add_of_mem_idxsOf i hi
    have hlength := List.length_take_le p xs
    exact decide_eq_true (by omega)
  have hbehind : ∀ i ∈ (xs.drop p).idxsOf a (o + 1 + (xs.take p).length),
      ¬ decide (i ≤ o + p) = true := fun i hi => by
    have hge := List.ge_of_mem_idxsOf i hi
    have hlt := List.lt_add_of_mem_idxsOf i hi
    rw [List.length_drop] at hlt
    rw [List.length_take] at hge hlt
    rw [decide_eq_true_iff]
    omega
  conv_lhs => rw [← List.take_append_drop p xs]
  rw [List.idxsOf_append, List.countP_append, List.countP_eq_length.2 hbefore,
    List.countP_eq_zero.2 hbehind, List.length_idxsOf, Nat.add_zero]

/-! ### Lines -/

/-- The characters cut behind each line feed. -/
def cutLines : List Char → List (List Char)
  | [] => []
  | c :: cs =>
    if c = '\n' then [c] :: cutLines cs
    else match cutLines cs with
      | [] => [[c]]
      | line :: lines => (c :: line) :: lines

/-- The sums of the lengths of lines one behind the other, of which the first begins at `o`. -/
def lineSums (o : ℕ) (lines : List (List Char)) : List ℕ := (lines.map byteCount).scanl (· + ·) o

@[simp] theorem lineSums_nil (o : ℕ) : lineSums o [] = [o] := rfl

@[simp] theorem lineSums_cons (o : ℕ) (line : List Char) (lines : List (List Char)) :
    lineSums o (line :: lines) = o :: lineSums (o + byteCount line) lines := List.scanl_cons

theorem flatten_cutLines (cs : List Char) : (cutLines cs).flatten = cs := by
  induction cs with
  | nil => rfl
  | cons c cs ih =>
    rw [cutLines]
    split_ifs with hc
    · rw [List.flatten_cons, ih, List.singleton_append]
    · split <;> simp_all

theorem byteCount_pos_of_mem_cutLines {cs line : List Char} (h : line ∈ cutLines cs) :
    0 < byteCount line := by
  have hne : [] ∉ cutLines cs := by
    clear h
    induction cs with
    | nil => simp [cutLines]
    | cons c cs ih =>
      rw [cutLines]
      split_ifs
      · simpa using ih
      · split <;> simp_all
  cases line with
  | nil => exact absurd h hne
  | cons c cs =>
    rw [byteCount_cons]
    exact Nat.add_pos_left c.utf8Size_pos _

/-- The places that the line table has for characters whose first byte is at `o`. -/
def startsFrom (o : ℕ) (cs : List Char) : List ℕ :=
  o :: if (lineBoundaries o cs).getLastD o < o + byteCount cs
    then lineBoundaries o cs ++ [o + byteCount cs] else lineBoundaries o cs

theorem startsFrom_lineFeed (o : ℕ) (cs : List Char) :
    startsFrom o ('\n' :: cs) = o :: startsFrom (o + ('\n' : Char).utf8Size) cs := by
  simp only [startsFrom, lineBoundaries, if_true, byteCount_cons, List.getLastD_cons,
    ← Nat.add_assoc, List.cons_append]
  split_ifs <;> rfl

theorem startsFrom_cons {o : ℕ} {c : Char} {cs : List Char} (hc : c ≠ '\n') (hcs : cs ≠ []) :
    startsFrom o (c :: cs) = o :: (startsFrom (o + c.utf8Size) cs).tail := by
  have hpos : 0 < byteCount cs := by
    obtain ⟨d, ds, rfl⟩ := List.exists_cons_of_ne_nil hcs
    exact Nat.add_pos_left d.utf8Size_pos _
  -- Without a line feed in `cs` the last line goes on to the end in both tables.
  have hlast : ∀ bs : List ℕ, bs.getLastD o < o + c.utf8Size + byteCount cs ↔
      bs.getLastD (o + c.utf8Size) < o + c.utf8Size + byteCount cs := by
    intro bs
    cases bs with
    | nil =>
      simp only [List.getLastD_nil]
      omega
    | cons b bs => rw [List.getLastD_cons, List.getLastD_cons]
  simp only [startsFrom, lineBoundaries, if_neg hc, byteCount_cons, ← Nat.add_assoc, hlast,
    List.tail_cons]

/-- The table has the sums of the lengths of the lines. -/
theorem lineSums_cutLines (o : ℕ) (cs : List Char) : lineSums o (cutLines cs) = startsFrom o cs := by
  induction cs generalizing o with
  | nil => simp [cutLines, startsFrom, lineBoundaries]
  | cons c cs ih =>
    rw [cutLines]
    split_ifs with hc
    · subst hc
      rw [lineSums_cons, startsFrom_lineFeed, ← ih, byteCount_cons, byteCount_nil, Nat.add_zero]
    · cases hlines : cutLines cs with
      | nil =>
        obtain rfl : cs = [] := by rw [← flatten_cutLines cs, hlines]; rfl
        simp [startsFrom, lineBoundaries, hc, c.utf8Size_pos]
      | cons line lines =>
        have hcs : cs ≠ [] := by
          rintro rfl
          cases hlines
        rw [startsFrom_cons hc hcs, ← ih, hlines, lineSums_cons, lineSums_cons, byteCount_cons,
          List.tail_cons, Nat.add_assoc]

/-! ### Sums of lengths -/

theorem le_of_mem_lineSums {o b : ℕ} {lines : List (List Char)} (h : b ∈ lineSums o lines) :
    o ≤ b := by
  induction lines generalizing o with
  | nil => exact Nat.le_of_eq (List.mem_singleton.1 h).symm
  | cons line lines ih =>
    rw [lineSums_cons] at h
    rcases List.mem_cons.1 h with rfl | h
    · exact Nat.le_refl _
    · exact Nat.le_of_add_right_le (ih h)

theorem pairwise_lineSums {lines : List (List Char)} (h : ∀ line ∈ lines, 0 < byteCount line)
    (o : ℕ) : (lineSums o lines).Pairwise (· < ·) := by
  induction lines generalizing o with
  | nil => simp
  | cons line lines ih =>
    obtain ⟨hline, hlines⟩ := List.forall_mem_cons.1 h
    rw [lineSums_cons, List.pairwise_cons]
    refine ⟨fun b hb => ?_, ih hlines _⟩
    have := le_of_mem_lineSums hb
    omega

theorem getLast?_lineSums (o : ℕ) (lines : List (List Char)) :
    (lineSums o lines).getLast? = some (o + byteCount lines.flatten) := by
  induction lines generalizing o with
  | nil => simp
  | cons line lines ih =>
    rw [lineSums_cons, List.getLast?_cons, ih, List.flatten_cons, byteCount_append, Nat.add_assoc]
    rfl

/-- In a list that increases, the numbers up to `p` are the first ones. -/
theorem le_iff_lt_countP {bs : List ℕ} (h : bs.Pairwise (· < ·)) {k b : ℕ} (p : ℕ)
    (hk : bs[k]? = some b) : b ≤ p ↔ k < bs.countP (· ≤ p) := by
  induction bs generalizing k with
  | nil => cases hk
  | cons d bs ih =>
    obtain ⟨hd, hbs⟩ := List.pairwise_cons.1 h
    by_cases hdp : d ≤ p
    · cases k with
      | zero =>
        obtain rfl : d = b := Option.some.inj hk
        simp [hdp]
      | succ k => simp [hdp, ih hbs hk]
    · have hbehind : ∀ e ∈ d :: bs, ¬ e ≤ p := by
        intro e he
        rcases List.mem_cons.1 he with rfl | he
        · exact hdp
        · have := hd e he
          omega
      have hzero : (d :: bs).countP (· ≤ p) = 0 :=
        List.countP_eq_zero.2 fun e he => by simpa using hbehind e he
      have := hbehind b (List.mem_of_getElem? hk)
      omega

/-! ### Lines of a source -/

namespace Source

variable {s : Source} {o : ℕ} {x : String}

/-- The line that a byte stands on: one more than the number of line feeds before the byte. -/
def lineAt (s : Source) (o : ℕ) : ℕ := 1 + (lineBoundaries 0 s.text.toList).countP (· ≤ o)

theorem lineAt_eq_count (s : Source) (o : ℕ) :
    s.lineAt o = 1 + (s.text.toByteArray.data.toList.take o).count 10 := by
  rw [lineAt, data_toByteArray, lineBoundaries_eq_idxsOf, ← countP_idxsOf 10 0 o]
  simp only [Nat.zero_add]

theorem lineAt_byteCount {pre post : List Char} (h : s.text.toList = pre ++ post) :
    s.lineAt (byteCount pre) = 1 + pre.count '\n' := by
  have hbefore : ∀ b ∈ lineBoundaries 0 pre, decide (b ≤ byteCount pre) = true := fun b hb => by
    have := mem_lineBoundaries hb
    exact decide_eq_true (by omega)
  have hbehind : ∀ b ∈ lineBoundaries (0 + byteCount pre) post,
      ¬ decide (b ≤ byteCount pre) = true := fun b hb => by
    have := mem_lineBoundaries hb
    rw [decide_eq_true_iff]
    omega
  rw [lineAt, h, lineBoundaries_append, List.countP_append, List.countP_eq_length.2 hbefore,
    List.countP_eq_zero.2 hbehind, length_lineBoundaries, Nat.add_zero]

/-- Behind a text the line is as many lines farther down as the text has line feeds. -/
theorem lineAt_add (h : s.Shows o x) :
    s.lineAt (o + x.utf8ByteSize) = s.lineAt o + x.toList.count '\n' := by
  by_cases hx : x = ""
  · subst hx
    rfl
  obtain ⟨pre, post, htext, rfl⟩ := (shows_iff hx).1 h
  rw [← byteCount_toList, ← byteCount_append, lineAt_byteCount htext,
    lineAt_byteCount (List.append_assoc .. ▸ htext), List.count_append, Nat.add_assoc]

/-- The lines of the text, each with its line feed if it has one. -/
def lines (s : Source) : List (List Char) := cutLines s.text.toList

/-- The line has a byte at the column. Lines are counted from 1, columns from 0. -/
def HasColumn (s : Source) (line column : ℤ) : Prop :=
  1 ≤ line ∧ 0 ≤ column ∧ ∃ cs, s.lines[(line - 1).toNat]? = some cs ∧ column < byteCount cs

end Source

namespace LineTable

variable {s : Source} {k p start : ℕ} {cs : List Char}

theorem starts_ofSource (s : Source) : (ofSource s).starts = lineSums 0 s.lines := by
  rw [Source.lines, lineSums_cutLines, startsFrom, byteCount_toList, Nat.zero_add]
  simp only [ofSource, lineStarts, List.getLastD_cons, Source.byteLength, List.cons_append]
  split_ifs <;> rfl

/-- The table as a search of the bytes for line feeds makes it: the start of the text, the places
behind the bytes 0x0A, and the end of the text if it is behind all of them. -/
theorem starts_eq_idxsOf (s : Source) : (ofSource s).starts =
    let starts := 0 :: s.text.toByteArray.data.toList.idxsOf 10 1
    if starts.getLastD 0 < s.byteLength then starts ++ [s.byteLength] else starts := by
  rw [data_toByteArray, ← Nat.zero_add 1, ← lineBoundaries_eq_idxsOf]
  rfl

theorem pairwise_starts (s : Source) : (ofSource s).starts.Pairwise (· < ·) := by
  rw [starts_ofSource]
  exact pairwise_lineSums (fun cs => byteCount_pos_of_mem_cutLines) 0

theorem getLast?_starts (s : Source) : (ofSource s).starts.getLast? = some s.byteLength := by
  rw [starts_ofSource, getLast?_lineSums, Source.lines, flatten_cutLines, byteCount_toList,
    Nat.zero_add]
  rfl

/-- The lines up to that of a byte are those that start up to it. -/
theorem countP_starts (hp : p < s.byteLength) :
    (ofSource s).starts.countP (· ≤ p) = s.lineAt p := by
  have hlast : ¬ s.byteLength ≤ p := Nat.not_le.2 hp
  have hfirst : (0 :: lineBoundaries 0 s.text.toList).countP (· ≤ p) = s.lineAt p := by
    simp [Source.lineAt, Nat.add_comm]
  unfold ofSource lineStarts
  dsimp only
  split_ifs
  · simp only [List.countP_append, hfirst, List.countP_singleton, hlast, decide_false,
      Bool.false_eq_true, if_false, Nat.add_zero]
  · exact hfirst

/-- A line ends where the next one starts. -/
theorem starts_succ (hcs : s.lines[k]? = some cs) (hstart : (ofSource s).starts[k]? = some start) :
    (ofSource s).starts[k + 1]? = some (start + byteCount cs) := by
  rw [starts_ofSource, lineSums] at *
  rw [List.getElem?_succ_scanl, hstart, List.getElem?_map, hcs]
  rfl

/-- A byte is in a line if it is the line of the byte. -/
theorem in_line_iff (hp : p < s.byteLength) (hcs : s.lines[k]? = some cs)
    (hstart : (ofSource s).starts[k]? = some start) :
    start ≤ p ∧ p < start + byteCount cs ↔ k + 1 = s.lineAt p := by
  have hk := le_iff_lt_countP (pairwise_starts s) p hstart
  have hsucc := le_iff_lt_countP (pairwise_starts s) p (starts_succ hcs hstart)
  rw [countP_starts hp] at hk hsucc
  omega

theorem exists_line (hp : p < s.byteLength) : ∃ k start cs, k + 1 = s.lineAt p ∧
    s.lines[k]? = some cs ∧ (ofSource s).starts[k]? = some start := by
  have hlength : (ofSource s).starts.length = s.lines.length + 1 := by
    rw [starts_ofSource, lineSums, List.length_scanl, List.length_map]
  have hlast : (ofSource s).starts[s.lines.length]? = some s.byteLength := by
    rw [← getLast?_starts, List.getLast?_eq_getElem?, hlength, Nat.add_sub_cancel]
  have hle := mt (le_iff_lt_countP (pairwise_starts s) p hlast).2 (Nat.not_le.2 hp)
  rw [countP_starts hp] at hle
  obtain ⟨k, hk⟩ : ∃ k, k + 1 = s.lineAt p := ⟨_, Nat.add_comm _ 1⟩
  have hlines : k < s.lines.length := by omega
  have hstarts : k < (ofSource s).starts.length := by omega
  exact ⟨k, _, _, hk, List.getElem?_eq_getElem hlines, List.getElem?_eq_getElem hstarts⟩

/-- The table of a source is that of its lines: they start at the sums of their lengths, which
increase up to the length of the source, and each byte is at exactly one column of one line, whose
number is one more than the number of line feeds before the byte. -/
theorem ofSource_exact (s : Source) :
    (ofSource s).starts = (s.lines.map byteCount).scanl (· + ·) 0 ∧
    (ofSource s).starts.Pairwise (· < ·) ∧
    (ofSource s).starts.getLast? = some s.byteLength ∧
    ∀ p < s.byteLength, ∃ column : ℤ, ∀ line column' : ℤ,
      s.HasColumn line column' ∧ (ofSource s).offset line column' = .ok p ↔
        line = (1 + (s.text.toByteArray.data.toList.take p).count 10 : ℕ) ∧ column' = column := by
  refine ⟨starts_ofSource s, pairwise_starts s, getLast?_starts s, fun p hp => ?_⟩
  obtain ⟨k, start, cs, hk, hcs, hstart⟩ := exists_line hp
  refine ⟨p - start, fun line column => ?_⟩
  rw [← Source.lineAt_eq_count, offset_eq_ok_iff]
  constructor
  · rintro ⟨⟨hline, hcolumn, cs', hcs', hlt⟩, -, start', hstart', hoffset⟩
    have hin := (in_line_iff hp hcs' hstart').1 (by omega)
    obtain rfl : (line - 1).toNat = k := by omega
    obtain rfl : start' = start := Option.some.inj (hstart'.symm.trans hstart)
    omega
  · rintro ⟨rfl, rfl⟩
    have hin := (in_line_iff hp hcs hstart).2 hk
    have hline : ((s.lineAt p : ℤ) - 1).toNat = k := by omega
    rw [Source.HasColumn, hline]
    exact ⟨⟨by omega, by omega, cs, hcs, by omega⟩, by omega, start, hstart, by omega⟩

/-- A line that ends, one with nothing before its end, and one without an end. -/
def threeLines : Source := ⟨"lines.rb", "é\n\nx"⟩

theorem ofSource_exact_threeLines : (ofSource threeLines).starts = [0, 3, 4, 5] ∧
    ∃ column : ℤ, ∀ line column' : ℤ,
      threeLines.HasColumn line column' ∧ (ofSource threeLines).offset line column' = .ok 4 ↔
        line = 3 ∧ column' = column := by
  have hp : 4 < threeLines.byteLength := by decide
  have hcount : (threeLines.text.toByteArray.data.toList.take 4).count 10 = 2 := by decide
  have h := (ofSource_exact threeLines).2.2.2 4 hp
  rw [hcount] at h
  exact ⟨by decide, h⟩

end LineTable

end RubyTokens
