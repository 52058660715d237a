import RubyTokens.Proofs.Conversion.Placement
import RubyTokens.Proofs.Heredoc.Fence

/-! Which bytes of a source tokens cover. If the lexemes lie end to end, the tokens of a step cover
each byte of the text that they stand for once. That is all that the step reads, except space, the
separator that an opener of words takes with it, and the line end that is chomped. -/

namespace RubyTokens

/-- Whether a byte lies in the token's range. -/
def Token.covers (t : Token) (b : ℕ) : Bool := decide (t.span.start ≤ b ∧ b < t.span.stop)

/-- Whether the lexeme opens a list of words. -/
def Lexeme.opensWords (l : Lexeme) : Bool := (l.kind?.bind LexemeKind.wordList?).isSome

/-- The step leaves out the byte at a place in the lexeme at index `k`: the lexeme is space, or a
separator that is taken with an opener of words, or the byte is of the line feed, or of the carriage
return and line feed, at the end of a comment or of a heredoc's end. -/
inductive Step.LeavesOut (ls : List Lexeme) (made : Step) (k : ℕ) (l : Lexeme) (n : ℕ) : Prop
  | space (index : made.index = k)
      (kind : l.hasKind .space = true ∨ l.hasKind .ignoredSpace = true)
  | separator {i : ℕ} {opener : Lexeme} (index : made.index = i) (last : made.last = k)
      (behind : k = i + 1) (opener_eq : ls[i]? = some opener) (opens : opener.opensWords = true)
      (kind : l.hasKind .wordsSep = true)
  | lineEnd {x y : Text} (index : made.index = k)
      (kind : l.hasKind .comment = true ∨ l.hasKind .heredocEnd = true)
      (text_eq : l.text = x ++ y) (ending : y = "\n" ∨ y = "\r\n")
      (behind : x.toString.utf8ByteSize ≤ n)

variable {lines : LineTable} {options : Options} {s : Setting} {ls rest : List Lexeme}
variable {l x : Lexeme} {made : Step} {r : Reading} {o i k n b : ℕ} {ts : List Token} {y : String}

theorem Token.covers_iff {t : Token} : t.covers b = true ↔ t.span.start ≤ b ∧ b < t.span.stop :=
  decide_eq_true_iff

theorem Lays.countP_covers (h : Lays ls o ts y) (b : ℕ) :
    ts.countP (·.covers b) = if o ≤ b ∧ b < o + y.utf8ByteSize then 1 else 0 := by
  induction h with
  | nil o => exact (if_neg fun h => Nat.not_lt_of_le h.1 h.2).symm
  | @cons o t ts x y span _ _ ih =>
    have hcovers : t.covers b = true ↔ o ≤ b ∧ b < o + x.utf8ByteSize := by
      rw [Token.covers_iff, span, Span.start_sized, Span.stop_sized]
    rw [List.countP_cons, ih, String.utf8ByteSize_append]
    simp only [hcovers]
    split_ifs <;> omega

/-! ### Line ends -/

theorem Text.utf8ByteSize_toString_append (x y : Text) : (x ++ y).toString.utf8ByteSize =
    x.toString.utf8ByteSize + y.toString.utf8ByteSize := by
  rw [← String.utf8ByteSize_append, toString, toString, toString, ← String.ofList_append]
  simp only [chars, points_append, List.map_append]

/-- A byte is chomped if it is one of a line end at the end of the text. -/
theorem size_chomp_le_iff {t : Text} (hn : n < t.toString.utf8ByteSize) :
    (chomp t).toString.utf8ByteSize ≤ n ↔
      ∃ x y : Text, t = x ++ y ∧ (y = "\n" ∨ y = "\r\n") ∧ x.toString.utf8ByteSize ≤ n := by
  constructor
  · intro h
    obtain ⟨e, he, hends⟩ := chompPoints_append t.points
    have ht : t = chomp t ++ ⟨e⟩ := Text.eq_of_points he
    rcases hends with rfl | rfl | rfl
    · rw [← Text.append_nil] at ht
      rw [ht] at hn
      exact absurd hn (Nat.not_lt.2 h)
    · exact ⟨chomp t, "\n", ht, .inl rfl, h⟩
    · exact ⟨chomp t, "\r\n", ht, .inr rfl, h⟩
  · rintro ⟨x, y, rfl, hy, hx⟩
    have hends : y.points = [.char '\n'] ∨ y.points = [.char '\r', .char '\n'] :=
      hy.imp (congrArg Text.points) (congrArg Text.points)
    obtain ⟨e, he⟩ := chompPoints_isPrefixOf (Text.points_append x y) hends
    have hsize := Text.utf8ByteSize_toString_append (chomp (x ++ y)) ⟨e⟩
    rw [show chomp (x ++ y) ++ (⟨e⟩ : Text) = x from Text.eq_of_points he] at hsize
    omega

/-! ### Bytes in front of a lexeme -/

theorem extent_take_le (ls : List Lexeme) {i k : ℕ} (h : i ≤ k) :
    extent (ls.take i) ≤ extent (ls.take k) := by
  obtain ⟨m, rfl⟩ := Nat.exists_eq_add_of_le h
  rw [List.take_add, extent_append]
  exact Nat.le_add_right ..

theorem extent_take_succ (hk : ls[k]? = some x) :
    extent (ls.take (k + 1)) = extent (ls.take k) + x.size := by
  rw [List.take_add_one, hk, Option.toList_some, extent_append, extent_cons, extent_nil,
    Nat.add_zero]

theorem extent_take_of_drop (h : ls.drop i = l :: rest) (c : ℕ) :
    extent (ls.take (i + (c + 1))) = extent (ls.take i) + extent (l :: rest.take c) := by
  rw [List.take_add, h, List.take_succ_cons, extent_append]

/-! ### What a step leaves out -/

/-- How much of what a step reads its tokens stand for. -/
inductive Showing (options : Options) (l : Lexeme) (behind : List Lexeme) : Prop
  | nothing (kind : l.hasKind .space = true ∨ l.hasKind .ignoredSpace = true) (alone : behind = [])
      (shown_eq : shown options l behind = "")
  | opener {separator : Lexeme} (opens : l.opensWords = true) (behind_eq : behind = [separator])
      (kind : separator.hasKind .wordsSep = true) (shown_eq : shown options l behind = l.text)
  | chomped (kind : l.hasKind .comment = true ∨ l.hasKind .heredocEnd = true) (alone : behind = [])
      (shown_eq : shown options l behind = chomp l.text)
  | all
      (kinds : ∀ k ∈ [LexemeKind.space, .ignoredSpace, .comment, .heredocEnd], l.hasKind k = false)
      (alone : l.opensWords = true → behind = [])
      (shown_eq : shown options l behind = Text.join ((l :: behind).map Lexeme.text))

theorem exists_role_of_opensWords (ho : options.KeepsKinds) (h : l.opensWords = true) :
    ∃ kind, Role.of options l.kind = .wordList kind := by
  obtain ⟨kind, hkind⟩ := Option.isSome_iff_exists.1 h
  obtain ⟨k, hk, hlist⟩ := Option.bind_eq_some_iff.1 hkind
  have hne : k ≠ .character := by rintro rfl; cases hlist
  refine ⟨kind, (Role.of_hasKind ho (Lexeme.hasKind_iff.2 hk) hne).trans ?_⟩
  cases k <;> cases hlist <;> rfl

theorem eq_of_dropped {k : LexemeKind} (h : Role.ofKind k = .dropped) :
    k = .space ∨ k = .ignoredSpace := by
  cases k <;> revert h <;> decide

namespace Showing

variable {role : Role} {behind : List Lexeme}

theorem of_count_eq_zero (hcount : (Stride.of options l rest).count = 0)
    (h : Showing options l []) :
    Showing options l (rest.take (Stride.of options l rest).count) := by
  rw [hcount]
  exact h

/-- The whole text is shown of a lexeme in a role that none of the four kinds has. -/
theorem of_role (ho : options.KeepsKinds) (hrole : Role.of options l.kind = role)
    (hne : role ∉ [.dropped, .known .comment, .known .heredocEnd])
    (halone : (∃ kind, role = .wordList kind) → behind = [])
    (hshown : shown options l behind = Text.join ((l :: behind).map Lexeme.text)) :
    Showing options l behind := by
  have hroles : ∀ k ∈ [LexemeKind.space, .ignoredSpace, .comment, .heredocEnd],
      k ≠ .character ∧ Role.ofKind k ∈ [.dropped, .known .comment, .known .heredocEnd] := by decide
  refine .all (fun k hk => ?_) (fun hopens => halone ?_) hshown
  · by_contra hl
    obtain ⟨hc, hmem⟩ := hroles k hk
    rw [← Role.of_hasKind ho (Bool.not_eq_false _ ▸ hl) hc, hrole] at hmem
    exact hne hmem
  · obtain ⟨kind, hkind⟩ := exists_role_of_opensWords ho hopens
    exact ⟨kind, hrole.symm.trans hkind⟩

theorem of_alone (ho : options.KeepsKinds) (hrole : Role.of options l.kind = role)
    (hne : role ∉ [.dropped, .known .comment, .known .heredocEnd])
    (hshown : shown options l [] = l.text) : Showing options l [] :=
  of_role ho hrole hne (fun _ => rfl) (by
    rw [hshown, List.map_singleton, Text.join_singleton])

/-- An opener of words shows its text, and not the separator that it takes. -/
theorem of_wordList (ho : options.KeepsKinds) {kind : TokenKind}
    (hrole : Role.of options l.kind = .wordList kind) (rest : List Lexeme) :
    Showing options l (rest.take (Stride.of options l rest).count) := by
  have hopens : l.opensWords = true := by
    rw [Lexeme.opensWords, Role.wordList?_of_wordList hrole]
    rfl
  rw [Stride.count_of_wordList hrole]
  cases hsep : rest[0]?.any (·.hasKind .wordsSep) with
  | true =>
    obtain ⟨f, hf, hkind⟩ := (Option.any_eq_true _ _).1 hsep
    obtain ⟨tail, rfl⟩ := List.head?_eq_some_iff.1 (List.head?_eq_getElem? ▸ hf)
    exact .opener hopens rfl hkind (by rw [shown, hrole])
  | false =>
    exact of_alone ho hrole (by simp) (by rw [shown, hrole])

theorem of_known (ho : options.KeepsKinds) (hl : l.hasKind .dataEnd = false) {k : LexemeKind}
    (hrole : Role.of options l.kind = .known k) (rest : List Lexeme) :
    Showing options l (rest.take (Stride.of options l rest).count) := by
  have hkind := Role.hasKind_of_known hrole
  have halone : (∃ kind, Role.known k = .wordList kind) →
      rest.take (Stride.of options l rest).count = [] := by
    rintro ⟨_, h⟩
    cases h
  cases k with
  | comment =>
    refine of_count_eq_zero ?_ (.chomped (.inl hkind) rfl (by rw [shown, hrole]))
    rw [Stride.of, Move.of, hrole]
    dsimp only
    split_ifs <;> rfl
  | heredocEnd =>
    exact of_count_eq_zero (by rw [Stride.of, Move.of, hrole]; rfl)
      (.chomped (.inr hkind) rfl (by rw [shown, hrole]))
  | dataEnd => rw [hkind] at hl; cases hl
  | tstringBeg => exact of_role ho hrole (by decide) halone (by rw [shown, hrole])
  | symbeg => exact of_role ho hrole (by decide) halone (by rw [shown, hrole])
  | embdocBeg => exact of_role ho hrole (by decide) halone (by rw [shown, hrole])
  | _ =>
    exact of_count_eq_zero (by rw [Stride.of, Move.of, hrole]; rfl)
      (of_alone ho hrole (by decide) (by rw [shown, hrole]))

end Showing

/-- What a step shows of what it reads. -/
theorem showing (ho : options.KeepsKinds) (hl : l.hasKind .dataEnd = false) (rest : List Lexeme) :
    Showing options l (rest.take (Stride.of options l rest).count) := by
  cases hrole : Role.of options l.kind with
  | wordList kind => exact .of_wordList ho hrole rest
  | known k => exact .of_known ho hl hrole rest
  | dropped =>
    obtain ⟨k, hk, hdropped⟩ := Role.exists_ofKind hrole (by simp) (by simp)
    refine .of_count_eq_zero (by rw [Stride.of, Move.of, hrole]; rfl)
      (.nothing ?_ rfl (by rw [shown, hrole]))
    rcases eq_of_dropped hdropped with rfl | rfl
    · exact .inl (Lexeme.hasKind_iff.2 hk)
    · exact .inr (Lexeme.hasKind_iff.2 hk)
  | direct kind =>
    exact .of_count_eq_zero (by rw [Stride.of, Move.of, hrole]; rfl)
      (.of_alone ho hrole (by simp) (by rw [shown, hrole]))
  | character =>
    exact .of_count_eq_zero (by rw [Stride.of, Move.of, hrole]; rfl)
      (.of_alone ho hrole (by decide) (by rw [shown, hrole]))
  | unknown =>
    exact .of_count_eq_zero (by rw [Stride.of, Move.of, hrole]; rfl)
      (.of_alone ho hrole (by decide) (by rw [shown, hrole]))

/-! ### Steps -/

theorem size_shown_le (options : Options) {behind : List Lexeme} (h : Tiles lines o (l :: behind)) :
    (shown options l behind).toString.utf8ByteSize ≤ extent (l :: behind) := by
  obtain ⟨x, hx, -, hextent⟩ := h.exists_text
  obtain ⟨t, happend⟩ := exists_shown_append options l behind
  rw [hx] at happend
  obtain ⟨y, z, hy, -, rfl⟩ := Text.exists_of_append happend
  rw [hy, Text.toString_ofString, hextent, String.utf8ByteSize_append]
  exact Nat.le_add_right ..

theorem Lexeme.hasKind_eq_false_of_opensWords (h : l.opensWords = true) :
    ∀ k ∈ [LexemeKind.space, .ignoredSpace, .comment, .heredocEnd], l.hasKind k = false := by
  have hnone : ∀ k ∈ [LexemeKind.space, .ignoredSpace, .comment, .heredocEnd],
      k.wordList? = none := by decide
  intro k hk
  by_contra hl
  rw [opensWords, Lexeme.hasKind_iff.1 (Bool.not_eq_false _ ▸ hl), Option.bind_some,
    hnone k hk] at h
  cases h

/-- Of its own lexeme a step leaves out nothing, unless that is of one of four kinds. -/
theorem Step.not_leavesOut (index : made.index = k)
    (kinds : ∀ k ∈ [LexemeKind.space, .ignoredSpace, .comment, .heredocEnd], l.hasKind k = false) :
    ¬ made.LeavesOut ls k l n := by
  have hno : ∀ {j : LexemeKind}, j ∈ [LexemeKind.space, .ignoredSpace, .comment, .heredocEnd] →
      ¬ l.hasKind j = true := fun hj hl => by rw [kinds _ hj] at hl; cases hl
  rintro (⟨-, hkind | hkind⟩ | ⟨hindex, -, hbehind, -⟩ | ⟨-, hkind | hkind, -⟩)
  · exact hno (by decide) hkind
  · exact hno (by decide) hkind
  · omega
  · exact hno (by decide) hkind
  · exact hno (by decide) hkind

namespace Progress.Made

theorem length_behind (h : Made s ls made i l rest r) :
    (rest.take r.stride.count).length = r.stride.count := by
  rw [List.length_take, Nat.min_eq_left (count_le_of_reading h.reading)]

theorem tiles (ht : Tiles s.lines o ls) (h : Made s ls made i l rest r) :
    Tiles s.lines (o + extent (ls.take i)) (l :: rest.take r.stride.count) := by
  have htiles := ht.drop i
  rw [h.drop] at htiles
  exact htiles.take (r.stride.count + 1)

/-- The tokens of a step cover a byte once if it is one of those that they stand for. -/
theorem countP_covers (ht : Tiles s.lines o ls) (h : Made s ls made i l rest r) (b : ℕ) :
    made.tokens.countP (·.covers (o + b)) =
      if extent (ls.take i) ≤ b ∧ b < extent (ls.take i) +
        (shown s.options l (rest.take r.stride.count)).toString.utf8ByteSize then 1 else 0 := by
  have htiles := ht.drop i
  rw [h.drop] at htiles
  obtain ⟨y, hy, hlays, -⟩ := exists_lays (h.drop ▸ List.drop_suffix i ls) htiles h.reading
  rw [h.tokens, hlays.countP_covers, hy, Text.toString_ofString]
  exact if_congr (by omega) rfl rfl

/-- A byte of a lexeme that the step does not read is not shown. -/
theorem countP_covers_of_not_read (ht : Tiles s.lines o ls) (h : Made s ls made i l rest r)
    (hk : ls[k]? = some x) (hn : n < x.size) (hread : ¬ (made.index ≤ k ∧ (k : Int) ≤ made.last)) :
    made.tokens.countP (·.covers (o + (extent (ls.take k) + n))) = 0 := by
  rw [h.countP_covers ht, if_neg]
  rintro ⟨hlow, hhigh⟩
  have hshown := size_shown_le s.options (h.tiles ht)
  have hend := extent_take_of_drop h.drop r.stride.count
  rw [h.index, h.last] at hread
  have hcases : k + 1 ≤ i ∨ i + (r.stride.count + 1) ≤ k := by omega
  rcases hcases with hbefore | hbehind
  · have hle := extent_take_le ls hbefore
    rw [extent_take_succ hk] at hle
    omega
  · have hle := extent_take_le ls hbehind
    omega

/-- The separator that a step takes with an opener of words is left out. -/
theorem leavesOut_separator (h : Made s ls made i l rest r) (hk : ls[i + 1]? = some x)
    (opens : l.opensWords = true) {separator : Lexeme}
    (behind : rest.take r.stride.count = [separator])
    (kind : separator.hasKind .wordsSep = true) : made.LeavesOut ls (i + 1) x n := by
  have hcount : 1 = r.stride.count := by rw [← h.length_behind, behind, List.length_singleton]
  have hx : x = separator := by
    rw [← List.getElem?_drop, h.drop, List.getElem?_cons_succ, ← List.head?_eq_getElem?] at hk
    rw [← hcount, List.take_one, hk] at behind
    exact (List.cons.inj behind).1
  exact .separator h.index (hcount ▸ h.last) rfl h.getElem? opens (hx ▸ kind)

/-- Of a lexeme that is chomped the line end is left out. -/
theorem leavesOut_lineEnd_iff (h : Made s ls made i l rest r)
    (kind : l.hasKind .comment = true ∨ l.hasKind .heredocEnd = true) (hn : n < l.size) :
    made.LeavesOut ls i l n ↔ (chomp l.text).toString.utf8ByteSize ≤ n := by
  have hindex := h.index
  rw [size_chomp_le_iff hn]
  constructor
  · rintro (⟨-, hspace⟩ | ⟨hindex', -, hbehind, -⟩ | ⟨-, -, htext, hends, hbehind⟩)
    · rcases kind with hk | hk <;> rcases hspace with hs | hs <;> cases Lexeme.hasKind_inj hk hs
    · omega
    · exact ⟨_, _, htext, hends, hbehind⟩
  · rintro ⟨x, y, htext, hends, hbehind⟩
    exact .lineEnd hindex kind htext hends hbehind

/-- Nothing is left out by a step at a lexeme of another kind, if it takes no separator with it. -/
theorem not_leavesOut (h : Made s ls made i l rest r) (hk : ls[k]? = some x)
    (kinds : ∀ k ∈ [LexemeKind.space, .ignoredSpace, .comment, .heredocEnd], l.hasKind k = false)
    (alone : l.opensWords = true → rest.take r.stride.count = []) :
    ¬ made.LeavesOut ls k x n := by
  have hindex := h.index
  have hlast := h.last
  by_cases hki : k = i
  · obtain rfl := h.eq_of_index hk hki
    exact Step.not_leavesOut (hki ▸ hindex) kinds
  rintro (⟨hindex', -⟩ | @⟨j, opener, hindex', hlast', hbehind, hopener, hopens, -⟩ | ⟨hindex', -⟩)
  · omega
  · obtain rfl : j = i := by omega
    obtain rfl := Option.some.inj (hopener.symm.trans h.getElem?)
    have hlength := h.length_behind
    rw [alone hopens, List.length_nil] at hlength
    omega
  · omega

/-- Of the bytes of a lexeme that the step reads, it leaves out those that are not shown. -/
theorem leavesOut_iff (ho : s.options.KeepsKinds) (hd : ∀ l ∈ ls, l.hasKind .dataEnd = false)
    (ht : Tiles s.lines o ls) (h : Made s ls made i l rest r) (hk : ls[k]? = some x)
    (hn : n < x.size) (hread : made.index ≤ k ∧ (k : Int) ≤ made.last) :
    made.LeavesOut ls k x n ↔ extent (ls.take i) +
      (shown s.options l (rest.take r.stride.count)).toString.utf8ByteSize ≤
        extent (ls.take k) + n := by
  have hshowing := showing ho (hd l (List.mem_of_getElem? h.getElem?)) rest
  rw [← stride_of_reading h.reading] at hshowing
  have hlength := h.length_behind
  rw [h.index, h.last] at hread
  cases hshowing with
  | nothing kind alone shown_eq =>
    rw [alone, List.length_nil] at hlength
    obtain rfl : k = i := by omega
    obtain rfl := h.eq_of_index hk rfl
    rw [shown_eq]
    exact iff_of_true (.space h.index kind) (Nat.le_add_right ..)
  | opener opens behind_eq kind shown_eq =>
    rw [behind_eq, List.length_singleton] at hlength
    rw [shown_eq, ← Lexeme.size]
    by_cases hki : k = i
    · obtain rfl := h.eq_of_index hk hki
      refine iff_of_false (Step.not_leavesOut (hki ▸ h.index) ?_) (by rw [hki]; omega)
      exact Lexeme.hasKind_eq_false_of_opensWords opens
    · obtain rfl : k = i + 1 := by omega
      rw [extent_take_succ h.getElem?]
      exact iff_of_true (h.leavesOut_separator hk opens behind_eq kind) (Nat.le_add_right ..)
  | chomped kind alone shown_eq =>
    rw [alone, List.length_nil] at hlength
    obtain rfl : k = i := by omega
    obtain rfl := h.eq_of_index hk rfl
    rw [shown_eq, Nat.add_le_add_iff_left]
    exact h.leavesOut_lineEnd_iff kind hn
  | all kinds alone shown_eq =>
    obtain ⟨y, hy, -, hextent⟩ := (h.tiles ht).exists_text
    have hle := extent_take_le ls (show k + 1 ≤ i + (r.stride.count + 1) by omega)
    rw [extent_take_succ hk] at hle
    rw [shown_eq, hy, Text.toString_ofString, ← hextent, ← extent_take_of_drop h.drop]
    exact iff_of_false (h.not_leavesOut hk kinds alone) (by omega)

theorem reads_of_leavesOut (h : Made s ls made i l rest r) (hleaves : made.LeavesOut ls k x n) :
    made.index ≤ k ∧ (k : Int) ≤ made.last := by
  have hindex := h.index
  have hlast := h.last
  rcases hleaves with ⟨hindex', -⟩ | ⟨hindex', hlast', hbehind, -⟩ | ⟨hindex', -⟩ <;> omega

end Progress.Made

/-! ### Runs -/

theorem exists_of_countP_eq_one {α : Type} {p : α → Bool} {xs : List α} (h : xs.countP p = 1) :
    ∃ front x back, xs = front ++ x :: back ∧ p x = true ∧ ∀ y ∈ front ++ back, p y = false := by
  obtain ⟨x, hx, hp⟩ := List.countP_pos_iff.1 (Nat.lt_of_lt_of_eq Nat.one_pos h.symm)
  obtain ⟨front, back, rfl⟩ := List.append_of_mem hx
  rw [List.countP_append, List.countP_cons_of_pos hp] at h
  have hnone : (front ++ back).countP p = 0 := by rw [List.countP_append]; omega
  exact ⟨front, x, back, rfl, hp, fun y hy => by simpa using List.countP_eq_zero.1 hnone y hy⟩

namespace Progress

variable {q : Progress}

/-- Where one step alone has tokens with a property, only its tokens count. -/
theorem countP_tokens {front back : List Step} {p : Token → Bool}
    (hhistory : q.history = front ++ made :: back)
    (hothers : ∀ other ∈ front ++ back, other.tokens.countP p = 0) :
    q.tokens.countP p = made.tokens.countP p := by
  have hnone : ∀ xs : List Step, xs ⊆ front ++ back → (xs.flatMap Step.tokens).countP p = 0 := by
    intro xs hxs
    refine List.countP_eq_zero.2 fun t ht => ?_
    obtain ⟨other, hother, hin⟩ := List.mem_flatMap.1 ht
    exact List.countP_eq_zero.1 (hothers other (hxs hother)) t hin
  have hfront := hnone front.reverse fun _ h => List.mem_append_left _ (List.mem_reverse.1 h)
  have hback := hnone back.reverse fun _ h => List.mem_append_right _ (List.mem_reverse.1 h)
  rw [tokens, hhistory, List.reverse_append, List.reverse_cons, List.flatMap_append,
    List.flatMap_append, List.flatMap_singleton, List.countP_append, List.countP_append, hfront,
    hback, Nat.zero_add, Nat.add_zero]

/-- A byte of a lexeme that one step reads is covered once, or that step leaves it out. -/
theorem Reaches.countP_covers (ho : s.options.KeepsKinds)
    (hd : ∀ l ∈ ls, l.hasKind .dataEnd = false) (ht : Tiles s.lines o ls)
    (h : Reaches s (.start ls) q) (hk : ls[k]? = some x) (hn : n < x.size)
    (honce : q.timesRead k = 1) :
    q.tokens.countP (·.covers (o + (extent (ls.take k) + n))) ≤ 1 ∧
      (q.tokens.countP (·.covers (o + (extent (ls.take k) + n))) = 0 ↔
        ∃ made ∈ q.history, made.LeavesOut ls k x n) := by
  obtain ⟨front, made, back, hhistory, hread, hothers⟩ := exists_of_countP_eq_one honce
  have hread : made.index ≤ k ∧ (k : Int) ≤ made.last := of_decide_eq_true hread
  have hnot : ∀ other ∈ front ++ back, ¬ (other.index ≤ k ∧ (k : Int) ≤ other.last) :=
    fun other hother => of_decide_eq_false (hothers other hother)
  have hmem : ∀ other, other ∈ q.history ↔ other = made ∨ other ∈ front ++ back := fun other => by
    simp only [hhistory, List.mem_append, List.mem_cons]
    tauto
  have hcount := countP_tokens (p := (·.covers (o + (extent (ls.take k) + n)))) hhistory
    fun other hother => by
      obtain ⟨i, l, rest, r, hstep⟩ := h.exists_made ((hmem other).2 (.inr hother))
      exact hstep.countP_covers_of_not_read ht hk hn (hnot other hother)
  obtain ⟨i, l, rest, r, hstep⟩ := h.exists_made ((hmem made).2 (.inl rfl))
  have hleaves := hstep.leavesOut_iff ho hd ht hk hn hread
  have hle : extent (ls.take i) ≤ extent (ls.take k) := by
    refine extent_take_le _ ?_
    have := hstep.index
    omega
  rw [hcount, hstep.countP_covers ht]
  by_cases hout : made.LeavesOut ls k x n
  · rw [if_neg fun h => Nat.not_lt_of_le (hleaves.1 hout) h.2]
    exact ⟨Nat.zero_le 1, iff_of_true rfl ⟨made, (hmem made).2 (.inl rfl), hout⟩⟩
  · rw [if_pos ⟨Nat.le_add_right_of_le hle, Nat.lt_of_not_le fun h => hout (hleaves.2 h)⟩]
    refine ⟨Nat.le_refl 1, iff_of_false Nat.one_ne_zero ?_⟩
    rintro ⟨other, hother, hin⟩
    rcases (hmem other).1 hother with rfl | hin'
    · exact hout hin
    · obtain ⟨i, l, rest, r, hstep⟩ := h.exists_made hother
      exact hnot other hin' (hstep.reads_of_leavesOut hin)

end Progress

end RubyTokens
