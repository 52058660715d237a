import RubyTokens.Proofs.Heredoc.Order

/-! Heredocs within heredocs. A body may hold lines with heredocs of their own, but the line end of
such a line does not take the cursor past their bodies, since the outer heredoc is still open there.
So the bodies are read again, and in the second heredoc of a line not even its own body is left. -/

namespace RubyTokens

/-- Lines, in whose heredocs there may be lines again, and a last segment. -/
inductive WellNested : List Lexeme → Prop
  | last {xs : List Lexeme} (h : Segment xs) : WellNested xs
  | line {g : LineGroup} {rest : List Lexeme} (hg : g.Formed)
      (hbodies : ∀ h ∈ g.heredocs, WellNested h.body) (hrest : WellNested rest) :
      WellNested (g.lexerOrder ++ rest)

/-- Lines whose heredocs hold no heredocs, and a last segment. -/
def FlatList (xs : List Lexeme) : Prop :=
  ∃ groups last, (∀ g ∈ groups, LineGroup.Flat g) ∧ Segment last ∧ xs = lexerOrder groups last

def HasOpener (xs : List Lexeme) : Prop := ∃ l ∈ xs, l.hasKind .heredocBeg = true

/-! ### Lists without openers -/

theorem Plain.append {xs ys : List Lexeme} (hx : Plain xs) (hy : Plain ys) : Plain (xs ++ ys) where
  kinds l hl := (List.mem_append.1 hl).elim (hx.kinds l) (hy.kinds l)
  embdoc front l back heq hl := by
    rcases List.append_eq_append_iff.1 heq with ⟨zs, rfl, hy'⟩ | ⟨zs, hx', hy'⟩
    · exact hy.embdoc zs l back hy' hl
    · cases zs with
      | nil => exact hy.embdoc [] l back (by rw [List.nil_append]; exact hy'.symm) hl
      | cons z zs =>
        obtain ⟨rfl, rfl⟩ := List.cons.inj hy'
        obtain ⟨e, he, hend⟩ := hx.embdoc front l zs hx' hl
        exact ⟨e, List.mem_append_left _ he, hend⟩

theorem plain_lineEnd {f : Lexeme} (hf : f.endsLine = true) : Plain [f] := by
  obtain ⟨j, hj, hkind⟩ := Lexeme.exists_kind_of_endsLine hf
  refine plain_of_forall fun l hl k hk => ?_
  rw [List.mem_singleton.1 hl]
  refine Lexeme.hasKind_eq_false hkind ?_
  rintro rfl
  revert hj hk
  cases j <;> decide

theorem Lexeme.isColon_of_endsLine {f : Lexeme} (hf : f.endsLine = true) : f.isColon = false := by
  have hsymbeg := not_hasKind_of_isFence (isFence_of_endsLine hf) (k := .symbeg) (by decide)
  rw [isColon, hsymbeg, Bool.false_and]

theorem Plain.not_hasOpener {xs : List Lexeme} (h : Plain xs) : ¬ HasOpener xs := by
  rintro ⟨l, hl, hopen⟩
  rw [h.kinds l hl _ (by decide)] at hopen
  cases hopen

variable {xs rest post ls : List Lexeme} {s : Setting} {w : Place} {hs : List Heredoc} {h : Heredoc}
variable {f : Lexeme} {g : LineGroup} {p q : Progress}

theorem WellNested.plain (hx : WellNested xs) (hno : ¬ HasOpener xs) : Plain xs := by
  induction hx with
  | last h => exact h.toPlain
  | @line g rest hg _ _ _ ih =>
    have hrest : ¬ HasOpener rest := by
      rintro ⟨l, hl, hopen⟩
      exact hno ⟨l, List.mem_append_right _ hl, hopen⟩
    cases hs : g.heredocs with
    | nil =>
      rw [LineGroup.lexerOrder, hs, openings_nil, bodies_nil, List.append_nil]
      exact (hg.lead.toPlain.append (plain_lineEnd hg.lineEnd)).append (ih hrest)
    | cons h hs' =>
      refine absurd ⟨h.opener, ?_, (hg.heredocs h (hs ▸ List.mem_cons_self)).opener⟩ hno
      rw [LineGroup.lexerOrder, hs, openings_cons]
      simp

/-- What stands before the first opener, the heredocs of its line, and the rest. -/
structure FirstOpener (xs front : List Lexeme) (h : Heredoc) (hs : List Heredoc) (f : Lexeme)
    (rest : List Lexeme) : Prop where
  eq : xs = front ++ (openings (h :: hs) ++ f :: (bodies (h :: hs) ++ rest))
  plain : Plain front
  closed : Closed front
  formed : ∀ x ∈ h :: hs, x.Formed
  nested : ∀ x ∈ h :: hs, WellNested x.body
  lineEnd : f.endsLine = true

theorem WellNested.exists_firstOpener (hx : WellNested xs) (hopen : HasOpener xs) :
    ∃ front h hs f rest, FirstOpener xs front h hs f rest := by
  induction hx with
  | last h => exact absurd hopen h.toPlain.not_hasOpener
  | @line g rest hg hbodies _ _ ih =>
    cases hs : g.heredocs with
    | cons h hs' =>
      refine ⟨g.lead, h, hs', g.lineEnd, rest, ?_, hg.lead.toPlain, hg.lead_closed,
        hs ▸ hg.heredocs, hs ▸ hbodies, hg.lineEnd⟩
      rw [LineGroup.lexerOrder, hs, List.append_assoc, List.append_assoc, List.cons_append]
    | nil =>
      have hline : g.lexerOrder = g.lead ++ [g.lineEnd] := by
        rw [LineGroup.lexerOrder, hs, openings_nil, bodies_nil, List.append_nil]
      have hplain : Plain (g.lead ++ [g.lineEnd]) :=
        hg.lead.toPlain.append (plain_lineEnd hg.lineEnd)
      have hrest : HasOpener rest := by
        obtain ⟨l, hl, hkind⟩ := hopen
        rcases List.mem_append.1 hl with hl | hl
        · exact absurd ⟨l, hline ▸ hl, hkind⟩ hplain.not_hasOpener
        · exact ⟨l, hl, hkind⟩
      obtain ⟨front, h, hs', f, rest', hfirst⟩ := ih hrest
      refine ⟨g.lead ++ [g.lineEnd] ++ front, h, hs', f, rest', ?_, hplain.append hfirst.plain, ?_,
        hfirst.formed, hfirst.nested, hfirst.lineEnd⟩
      · rw [hline, hfirst.eq]
        simp only [List.append_assoc]
      · intro l hl
        rw [Option.mem_def, List.getLast?_append] at hl
        cases hfront : front.getLast? with
        | some x => rw [hfront] at hl; exact hfirst.closed l (hfront.trans hl)
        | none =>
          rw [hfront, Option.none_or, List.getLast?_concat] at hl
          cases hl
          exact Lexeme.isColon_of_endsLine hg.lineEnd

/-- Behind a closed list come the heredocs of a line. -/
theorem Plain.fenced {options : Options} (hx : Plain xs) (hc : Closed xs) (hf : ∀ h ∈ hs, h.Formed)
    (hend : f.endsLine = true) : Fenced options xs (openings hs ++ f :: rest) :=
  fenced_openings (hx.contained options hc) (fun h hh => (hf h hh).onLine) hend

/-! ### Runs over nested heredocs -/

/-- A stage of a run that comes to its end in success. -/
structure LeadsToEnd (s : Setting) (p q : Progress) : Prop where
  reaches : Progress.Reaches s p q
  exhausted : q.cursor.isExhausted = true
  free : ¬ Trapped q.events

theorem LeadsToEnd.exists_of_performs {P : Passage} {v : Place} {is : List ℕ} {es : List Event}
    (hq : LeadsToEnd s p q) (hP : Performs s ls P w v is es) (hp : p.IsAt ls w) :
    ∃ r, LeadsToEnd s r q ∧ r.IsAt ls v ∧ r.events = p.events ++ es ∧
      ∀ k, r.timesRead k = p.timesRead k + is.count k := by
  obtain ⟨r, hreach, hr, ts, hadds⟩ := hP.exists_of_isExhausted hp hq.reaches hq.exhausted
  exact ⟨r, ⟨hreach, hq.exhausted, hq.free⟩, hr, hadds.events, hadds.timesRead⟩

/-- The lexeme at hand is read once more. -/
theorem LeadsToEnd.timesRead_lt (hq : LeadsToEnd s p q) (hp : p.IsAt ls w)
    (hw : w.index < ls.length) : p.timesRead w.index < q.timesRead w.index := by
  rcases Relation.ReflTransGen.cases_head hq.reaches with rfl | ⟨r, hs, hreach⟩
  · exact absurd ((Progress.isExhausted_iff hp).1 hq.exhausted) (Nat.not_le_of_lt hw)
  · obtain ⟨l, rest, rd, -, -, rfl⟩ := Progress.exists_of_step hp hs
    have hle := Progress.Reaches.timesRead_le hreach Progress.after_isAt w.index
    rw [Progress.timesRead_after, List.count_range_1', if_pos ⟨Nat.le_refl _, by omega⟩] at hle
    omega

namespace FirstOpener

variable {front : List Lexeme}

/-- The run comes to the first opener; nothing is noted on the way. -/
theorem exists_at (hx : FirstOpener xs front h hs f rest) (hq : LeadsToEnd s p q) (hp : p.IsAt ls w)
    (hline : w.resume = none ∨ w.openers ≠ []) (hw : ls.drop w.index = xs ++ post) :
    ∃ r, LeadsToEnd s r q ∧ r.IsAt ls { w with index := w.index + front.length } ∧
      r.events = p.events ∧ ls.drop (w.index + front.length) =
        openings (h :: hs) ++ f :: (bodies (h :: hs) ++ (rest ++ post)) := by
  rw [hx.eq, List.append_assoc, List.append_assoc, List.cons_append, List.append_assoc] at hw
  have hfence : Fenced s.options front
      (openings (h :: hs) ++ f :: (bodies (h :: hs) ++ (rest ++ post))) :=
    hx.plain.fenced hx.closed hx.formed hx.lineEnd
  obtain ⟨r, hr, hat, hevents, -⟩ := hq.exists_of_performs
    (performs_stretch hx.plain.kinds hfence hw (.inr (hline.imp_right .inl))) hp
  exact ⟨r, hr, hat, hevents.trans (List.append_nil _), drop_of_drop_append hw⟩

end FirstOpener

/-- A body behind the last heredoc's end holds no opener, if the run comes to its end: an opener in
it would be sent to where the body begins. -/
theorem WellNested.not_hasOpener (hx : WellNested xs) (order : s.order = .lexer)
    (ho : s.options.KeepsKinds) (hq : LeadsToEnd s p q) (hp : p.IsAt ls w) {r : ℕ} {o : Int}
    (hres : w.resume = some r) (hin : w.openers ≠ [])
    (hlast : p.events.getLast? = some (.moved (.opened o (r + 1 : ℕ))))
    (hw : ls.drop w.index = xs ++ post) : ¬ HasOpener xs := by
  intro hopen
  obtain ⟨front, h, hs, f, rest, hfirst⟩ := hx.exists_firstOpener hopen
  obtain ⟨p₁, hq₁, hp₁, hevents, hw₁⟩ := hfirst.exists_at hq hp (.inr hin) hw
  have hbody : Place.body? ls { w with index := w.index + front.length } = some (r + 1) := by
    rw [Place.body?, hres]
  rw [openings_cons, List.cons_append] at hw₁
  obtain ⟨p₂, hq₂, hp₂, hevents₂, -⟩ := hq₁.exists_of_performs
    (performs_opener order ho (hfirst.formed h List.mem_cons_self).onLine hbody hw₁) hp₁
  have htrap : Trapped p₂.events := by
    rw [hevents₂, hevents]
    exact trapped_concat_iff.2 (.inr ⟨_, _, _, hlast, rfl⟩)
  exact hq.free (htrap.mono (hq₂.reaches.events_isPrefixOf hp₂))

/-- On a line of which a heredoc has ended, no further body holds an opener, if the run comes to its
end. -/
theorem not_hasOpener_of_openings (order : s.order = .lexer) (ho : s.options.KeepsKinds)
    (hf : ∀ x ∈ hs, x.Formed) (hn : ∀ x ∈ hs, WellNested x.body) (hend : f.endsLine = true)
    (hq : LeadsToEnd s p q) (hp : p.IsAt ls w) (hw : ls.drop w.index = openings hs ++ f :: post)
    {r : ℕ} (hres : w.resume = some r) (hdrop : ls.drop (r + 1) = bodies hs ++ rest) :
    ∀ x ∈ hs, ¬ HasOpener x.body := by
  induction hs generalizing p w r with
  | nil => exact List.forall_mem_nil _
  | cons h hs ih =>
    have hh := hf h List.mem_cons_self
    have hfs : ∀ x ∈ hs, x.Formed := fun x hx => hf x (.tail _ hx)
    rw [openings_cons, List.cons_append, List.append_assoc] at hw
    rw [bodies_cons, List.append_assoc, List.cons_append] at hdrop
    have hbody : w.body? ls = some (r + 1) := by rw [Place.body?, hres]
    obtain ⟨p₁, hq₁, hp₁, hevents, -⟩ :=
      hq.exists_of_performs (performs_opener order ho hh.onLine hbody hw) hp
    have hno : ¬ HasOpener h.body := (hn h List.mem_cons_self).not_hasOpener order ho hq₁ hp₁ hres
      (List.cons_ne_nil _ _) (by rw [hevents, List.getLast?_concat]) hdrop
    have hplain := (hn h List.mem_cons_self).plain hno
    obtain ⟨p₂, hq₂, hp₂, -, -⟩ := hq.exists_of_performs (Heredoc.performs order ho
      (hh.apart _ hplain) hbody hw (hh.tail.fenced hh.tail_closed hfs hend) hdrop) hp
    intro x hx
    rcases List.mem_cons.1 hx with rfl | hx
    · exact hno
    · exact ih hfs (fun x hx => hn x (.tail _ hx)) hq₂ hp₂
        (drop_of_drop_append (drop_of_drop_cons hw)) rfl
        (drop_of_drop_cons (drop_of_drop_append hdrop)) x hx

/-- From behind a heredoc the run comes to the end of the line. -/
theorem LeadsToEnd.exists_lineEnd (order : s.order = .lexer) (ho : s.options.KeepsKinds)
    (hf : ∀ x ∈ hs, x.Formed) (hn : ∀ x ∈ hs, WellNested x.body) (hend : f.endsLine = true)
    (hq : LeadsToEnd s p q) (hp : p.IsAt ls w) (hw : ls.drop w.index = openings hs ++ f :: post)
    {r : ℕ} (hres : w.resume = some r) (hdrop : ls.drop (r + 1) = bodies hs ++ rest) :
    ∃ p' v, LeadsToEnd s p' q ∧ p'.IsAt ls v ∧ v.index = w.index + (openings hs).length ∧
      v.openers = w.openers ∧ ∀ k, p.timesRead k ≤ p'.timesRead k := by
  have hno := not_hasOpener_of_openings order ho hf hn hend hq hp hw hres hdrop
  obtain ⟨v, is, es, hP, hindex, hopeners, -, -⟩ := performs_heredocs (b := r + 1) order ho
    (fun x hx => (hf x hx).apart _ ((hn x hx).plain (hno x hx))) hend hw
    (by rw [hres, Option.getD_some]) hdrop
  obtain ⟨p', hq', hp', -, hreads⟩ := hq.exists_of_performs hP hp
  exact ⟨p', v, hq', hp', hindex, hopeners, fun k => (hreads k).symm ▸ Nat.le_add_right ..⟩

/-- Within an open heredoc, the lexeme behind a line on which a heredoc was opened and closed is
read again. -/
theorem Heredoc.exists_read_twice (order : s.order = .lexer) (ho : s.options.KeepsKinds)
    (hf : ∀ x ∈ h :: hs, x.Formed) (hn : ∀ x ∈ h :: hs, WellNested x.body)
    (hplain : Plain h.body) (hend : f.endsLine = true) (hq : LeadsToEnd s p q) (hp : p.IsAt ls w)
    (hin : w.openers ≠ []) {b : ℕ} (hbody : w.body? ls = some b)
    (hb : b = w.index + (openings (h :: hs)).length + 1)
    (hw : ls.drop w.index = openings (h :: hs) ++ f :: post)
    (hdrop : ls.drop b = bodies (h :: hs) ++ rest) : ∃ k < ls.length, 2 ≤ q.timesRead k := by
  have hh := hf h List.mem_cons_self
  have hfs : ∀ x ∈ hs, x.Formed := fun x hx => hf x (.tail _ hx)
  have hline := drop_of_drop_append hw
  rw [openings_cons, List.cons_append, List.append_assoc] at hw
  rw [bodies_cons, List.append_assoc, List.cons_append] at hdrop
  have hlt : b < ls.length := by
    refine List.length_lt_of_drop_ne_nil ?_
    rw [hdrop]
    exact List.append_ne_nil_of_right_ne_nil _ (List.cons_ne_nil _ _)
  obtain ⟨p₁, hq₁, hp₁, -, hreads⟩ := hq.exists_of_performs (Heredoc.performs order ho
    (hh.apart _ hplain) hbody hw (hh.tail.fenced hh.tail_closed hfs hend) hdrop) hp
  have honce : 1 ≤ p₁.timesRead b := by
    rw [hreads]
    refine Nat.le_add_left_of_le (List.one_le_count_iff.2 ?_)
    cases h.body with
    | nil => simp
    | cons l ls => simp [List.mem_range'_1]
  obtain ⟨p₂, v, hq₂, hp₂, hindex, hopeners, hle⟩ := LeadsToEnd.exists_lineEnd order ho hfs
    (fun x hx => hn x (.tail _ hx)) hend hq₁ hp₁ (drop_of_drop_append (drop_of_drop_cons hw)) rfl
    (drop_of_drop_cons (drop_of_drop_append hdrop))
  have hv : v.index = w.index + (openings (h :: hs)).length := by
    rw [hindex, openings_cons, List.length_cons, List.length_append]
    dsimp only
    omega
  -- The heredoc around is open, so the line's end does not take the cursor past the bodies.
  have hpass := performs_fence (s := s) (Lexeme.isFence_of_endsLine hend) (hv ▸ hline)
    (Stride.of_endsLine ho hend [])
  rw [(Place.next_of_passing f (.inl ⟨rfl, .inr (.inr (hopeners ▸ hin))⟩)).1] at hpass
  obtain ⟨p₃, hq₃, hp₃, -, hreads₃⟩ := hq₂.exists_of_performs hpass hp₂
  have hback : (v.ahead Stride.endLine.count).index = b := by
    simp only [Place.ahead, Stride.count, hv]
    omega
  have htwice := hq₃.timesRead_lt hp₃ (hback ▸ hlt)
  rw [hback, hreads₃] at htwice
  exact ⟨b, hlt, by have := hle b; omega⟩

/-- A body that holds an opener is not read once only, if no heredoc was closed on its line before:
some lexeme is read when an opener sends the cursor to it, and again behind the end of that opener's
line. -/
theorem WellNested.exists_read_twice (hx : WellNested xs) (hopen : HasOpener xs)
    (order : s.order = .lexer) (ho : s.options.KeepsKinds) (hq : LeadsToEnd s p q)
    (hp : p.IsAt ls w) (hres : w.resume = none) (hin : w.openers ≠ [])
    (hw : ls.drop w.index = xs ++ post) : ∃ k < ls.length, 2 ≤ q.timesRead k := by
  -- The first heredoc's body is shorter than the list, and no line is pending where it begins.
  induction hlen : xs.length using Nat.strongRecOn generalizing xs w p post with
  | ind n ih =>
    obtain ⟨front, h, hs, f, rest, hfirst⟩ := hx.exists_firstOpener hopen
    obtain ⟨p₁, hq₁, hp₁, -, hw₁⟩ := hfirst.exists_at hq hp (.inl hres) hw
    have hbody : Place.body? ls { w with index := w.index + front.length } =
        some (w.index + front.length + (openings (h :: hs)).length + 1) := by
      rw [Place.body?_openings (fun x hx => (hfirst.formed x hx).onLine) hfirst.lineEnd hw₁]
      dsimp only
      rw [hres, Option.getD_none]
    have hdrop : ls.drop (w.index + front.length + (openings (h :: hs)).length + 1) =
        bodies (h :: hs) ++ (rest ++ post) := drop_of_drop_cons (drop_of_drop_append hw₁)
    by_cases hinner : HasOpener h.body
    · rw [openings_cons, List.cons_append] at hw₁
      rw [bodies_cons, List.append_assoc] at hdrop
      obtain ⟨p₂, hq₂, hp₂, -, -⟩ := hq₁.exists_of_performs
        (performs_opener order ho (hfirst.formed h List.mem_cons_self).onLine hbody hw₁) hp₁
      have hlt : h.body.length < n := by
        rw [← hlen, hfirst.eq]
        simp only [openings_cons, bodies_cons, List.length_append, List.length_cons]
        omega
      exact ih _ hlt (hfirst.nested h List.mem_cons_self) hinner hq₂ hp₂ hres (List.cons_ne_nil _ _)
        hdrop rfl
    · exact Heredoc.exists_read_twice order ho hfirst.formed hfirst.nested
        ((hfirst.nested h List.mem_cons_self).plain hinner) hfirst.lineEnd hq₁ hp₁ hin hbody rfl hw₁
        hdrop

/-- Of a line on which no heredoc is open before, with a heredoc that holds an opener, a lexeme is
read twice, if the run comes to its end: only the first heredoc of the line can be such a one. -/
theorem LineGroup.exists_read_twice (hg : g.Formed) (hn : ∀ x ∈ g.heredocs, WellNested x.body)
    (hopen : ∃ x ∈ g.heredocs, HasOpener x.body) (order : s.order = .lexer)
    (ho : s.options.KeepsKinds) {i : ℕ} (hq : LeadsToEnd s p q) (hp : p.IsAt ls ⟨i, [], none⟩)
    (hw : ls.drop i = g.lexerOrder ++ rest) : ∃ k < ls.length, 2 ≤ q.timesRead k := by
  obtain ⟨x, hx, hopen⟩ := hopen
  rw [lexerOrder, List.append_assoc, List.append_assoc, List.cons_append] at hw
  obtain ⟨p₁, hq₁, hp₁, -, -⟩ := hq.exists_of_performs (performs_stretch hg.lead.kinds
    (hg.lead.fenced hg.lead_closed hg.heredocs hg.lineEnd) hw (.inr (.inl rfl))) hp
  have hw₁ := drop_of_drop_append hw
  have hdrop := drop_of_drop_cons (drop_of_drop_append hw₁)
  have hf := hg.heredocs
  generalize g.heredocs = hs at *
  cases hs with
  | nil => exact absurd hx List.not_mem_nil
  | cons h hs =>
    have hh := hf h List.mem_cons_self
    have hnh := hn h List.mem_cons_self
    have hbody := Place.body?_openings (w := ⟨i + g.lead.length, [], none⟩)
      (fun x hx => (hf x hx).onLine) hg.lineEnd hw₁
    rw [Option.getD_none] at hbody
    rw [openings_cons, List.cons_append, List.append_assoc] at hw₁
    rw [bodies_cons, List.append_assoc, List.cons_append] at hdrop
    by_cases hinner : HasOpener h.body
    · obtain ⟨p₂, hq₂, hp₂, -, -⟩ :=
        hq₁.exists_of_performs (performs_opener order ho hh.onLine hbody hw₁) hp₁
      exact hnh.exists_read_twice hinner order ho hq₂ hp₂ rfl (List.cons_ne_nil _ _) hdrop
    · have hfs : ∀ x ∈ hs, x.Formed := fun x hx => hf x (.tail _ hx)
      obtain ⟨p₂, hq₂, hp₂, -, -⟩ := hq₁.exists_of_performs (Heredoc.performs order ho
        (hh.apart _ (hnh.plain hinner)) hbody hw₁ (hh.tail.fenced hh.tail_closed hfs hg.lineEnd)
        hdrop) hp₁
      have hno := not_hasOpener_of_openings order ho hfs (fun x hx => hn x (.tail _ hx))
        hg.lineEnd hq₂ hp₂ (drop_of_drop_append (drop_of_drop_cons hw₁)) rfl
        (drop_of_drop_cons (drop_of_drop_append hdrop))
      rcases List.mem_cons.1 hx with rfl | hx
      · exact absurd hopen hinner
      · exact absurd hopen (hno x hx)

/-- A list that is not flat is not read once only, if the run comes to its end. -/
theorem WellNested.exists_read_twice_of_not_flat (hx : WellNested xs) (order : s.order = .lexer)
    (ho : s.options.KeepsKinds) {i : ℕ} (hq : LeadsToEnd s p q) (hp : p.IsAt ls ⟨i, [], none⟩)
    (hw : ls.drop i = xs) (hflat : ¬ FlatList xs) : ∃ k < ls.length, 2 ≤ q.timesRead k := by
  induction hx generalizing p i with
  | last h => exact absurd ⟨[], _, List.forall_mem_nil _, h, rfl⟩ hflat
  | @line g rest hg hbodies hrest _ ih =>
    by_cases hopen : ∃ x ∈ g.heredocs, HasOpener x.body
    · exact LineGroup.exists_read_twice hg hbodies hopen order ho hq hp hw
    · have hgflat : g.Flat :=
        ⟨hg, fun x hx => (hbodies x hx).plain fun hinner => hopen ⟨x, hx, hinner⟩⟩
      obtain ⟨is, es, hP, -⟩ := LineGroup.crosses_lexerOrder order ho (hgflat.apart _) hw
      obtain ⟨p₁, hq₁, hp₁, -, -⟩ := hq.exists_of_performs hP hp
      refine ih hq₁ hp₁ (drop_of_drop_append hw) ?_
      rintro ⟨groups, last, hgroups, hlast, rfl⟩
      refine hflat ⟨g :: groups, last, ?_, hlast, (List.append_assoc ..).symm⟩
      intro x hx
      rcases List.mem_cons.1 hx with rfl | hx
      · exact hgflat
      · exact hgroups x hx

namespace Job

/-- Of a well-nested list that is converted, one step reads each lexeme if, and only if, no heredoc
holds another one. -/
theorem timesRead_eq_one_iff_flat {j : Job} (order : j.order = .lexer) (ho : j.options.KeepsKinds)
    (hx : WellNested j.lexemes) (hend : j.run.2 = .finished) :
    (∀ k < j.lexemes.length, j.run.1.timesRead k = 1) ↔ FlatList j.lexemes := by
  constructor
  · intro hone
    by_contra hflat
    have hfree : ¬ Trapped j.run.1.events := by
      rcases j.run_or_trapped with ⟨-, hfree⟩ | ⟨-, hno⟩
      · exact hfree
      · exact absurd ⟨stepLimit j.lexemes.length, fun h => by cases hend.symm.trans h⟩ hno
    obtain ⟨k, hk, htwice⟩ := hx.exists_read_twice_of_not_flat (q := j.run.1) order ho
      ⟨Progress.reaches_run _ _ _, Progress.isExhausted_of_run hend, hfree⟩
      (Progress.start_isAt j.lexemes) rfl hflat
    have := hone k hk
    omega
  · rintro ⟨groups, last, hgroups, hlast, heq⟩ k hk
    have hcross := crosses_lexerOrder (s := j.setting) order ho hgroups hlast
    rw [← heq] at hcross
    exact timesRead_of_crosses hcross hend hk

/-- The line of a heredoc within a heredoc. -/
def innerLine : LineGroup where
  lead := [⟨2, 0, LexemeKind.embexprBeg.name, "#\x7b", .beg⟩]
  heredocs := [
    { opener := ⟨2, 2, LexemeKind.heredocBeg.name, "<<B", .ended⟩
      tail := []
      body := []
      terminator := ⟨3, 0, LexemeKind.heredocEnd.name, "B\n", .beg⟩ }]
  lineEnd := ⟨2, 5, LexemeKind.newline.name, "\n", .beg⟩

/-- The line of the heredoc around it. -/
def outerLine : LineGroup where
  lead := [
    ⟨1, 0, LexemeKind.identifier.name, "p", .cmdArg⟩, ⟨1, 1, LexemeKind.space.name, " ", .cmdArg⟩]
  heredocs := [
    { opener := ⟨1, 2, LexemeKind.heredocBeg.name, "<<A", .ended⟩
      tail := []
      body := innerLine.lexerOrder ++ [
        ⟨4, 0, LexemeKind.embexprEnd.name, "\x7d", .ended⟩,
        ⟨4, 1, LexemeKind.tstringContent.name, "\n", .beg⟩]
      terminator := ⟨5, 0, LexemeKind.heredocEnd.name, "A\n", .beg⟩ }]
  lineEnd := ⟨1, 5, LexemeKind.newline.name, "\n", .beg⟩

def heredocInHeredoc : Job where
  source := ⟨"inner.rb", "p <<A\n#\x7b<<B\nB\n\x7d\nA\n"⟩
  lexemes := outerLine.lexerOrder ++ []

theorem segment_nil : Segment [] :=
  ⟨plain_of_forall (List.forall_mem_nil _), List.forall_mem_nil _⟩

theorem formed_innerLine : innerLine.Formed where
  lead := ⟨plain_of_forall (by decide), by decide⟩
  lead_closed := by decide
  heredocs h hh := by
    rw [List.mem_singleton.1 hh]
    exact ⟨by decide, segment_nil, by decide, by decide, by decide⟩
  lineEnd := by decide

theorem formed_outerLine : outerLine.Formed where
  lead := ⟨plain_of_forall (by decide), by decide⟩
  lead_closed := by decide
  heredocs h hh := by
    rw [List.mem_singleton.1 hh]
    exact ⟨by decide, segment_nil, by decide, by decide, by decide⟩
  lineEnd := by decide

theorem wellNested_heredocInHeredoc : WellNested heredocInHeredoc.lexemes := by
  refine .line formed_outerLine (fun h hh => ?_) (.last segment_nil)
  rw [List.mem_singleton.1 hh]
  refine .line formed_innerLine (fun h hh => ?_) (.last ⟨plain_of_forall (by decide), by decide⟩)
  rw [List.mem_singleton.1 hh]
  exact .last segment_nil

theorem timesRead_eq_one_iff_flat_heredocInHeredoc :
    (∀ k < heredocInHeredoc.lexemes.length, heredocInHeredoc.run.1.timesRead k = 1) ↔
      FlatList heredocInHeredoc.lexemes :=
  timesRead_eq_one_iff_flat (j := heredocInHeredoc) rfl (fun _ h => LexemeKind.name_inj h)
    wellNested_heredocInHeredoc (by decide +kernel)

/-- The end of the inner heredoc is read twice. -/
theorem timesRead_heredocInHeredoc : WellNested heredocInHeredoc.lexemes ∧
    heredocInHeredoc.run.2 = .finished ∧ 7 < heredocInHeredoc.lexemes.length ∧
    heredocInHeredoc.run.1.timesRead 7 = 2 :=
  ⟨wellNested_heredocInHeredoc, by decide +kernel, by decide, by decide +kernel⟩

end Job

end RubyTokens
