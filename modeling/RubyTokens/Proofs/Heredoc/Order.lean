import RubyTokens.Proofs.Conversion.Ending
import RubyTokens.Proofs.Heredoc.Passage

/-! Heredocs are put in the order of the grammar. The run over a line as the lexer reports it makes
the passage of the line with each body behind its opener; what is kept from one heredoc to the next
is where the body of the next one begins. -/

namespace RubyTokens

section

variable (lines : LineTable) (options : Options)

/-- A heredoc in the order of the grammar, with the segment behind it. -/
def Heredoc.passage (h : Heredoc) : Passage :=
  (stretch lines options [h.opener]).andThen ((stretch lines options h.body).andThen
    ((stretch lines options [h.terminator]).andThen (stretch lines options h.tail)))

def heredocsPassage : List Heredoc → Passage
  | [] => .nothing
  | h :: hs => (h.passage lines options).andThen (heredocsPassage hs)

def LineGroup.passage (g : LineGroup) : Passage :=
  (stretch lines options g.lead).andThen
    ((heredocsPassage lines options g.heredocs).andThen (stretch lines options [g.lineEnd]))

/-- Lines and a last segment in the order of the grammar. -/
def linesPassage : List LineGroup → List Lexeme → Passage
  | [], last => stretch lines options last
  | g :: groups, last => (g.passage lines options).andThen (linesPassage groups last)

end

variable {s : Setting} {ls post rest : List Lexeme} {w : Place} {h : Heredoc} {hs : List Heredoc}
variable {g : LineGroup} {f : Lexeme} {i b : ℕ}

/-! ### Fences behind the parts of a line -/

theorem Heredoc.OnLine.isFence_opener (hf : h.OnLine) : h.opener.isFence = true := by
  rw [Lexeme.isFence, hf.opener]
  rfl

theorem Lexeme.isFence_of_heredocEnd (hf : f.hasKind .heredocEnd = true) : f.isFence = true := by
  rw [isFence, hf, Bool.or_true]
  rfl

theorem Lexeme.isFence_of_endsLine (hf : f.endsLine = true) : f.isFence = true := by
  rw [isFence, hf, Bool.or_true]

theorem fenced_cons {options : Options} {xs : List Lexeme} (hx : Contained options xs)
    (hf : f.isFence = true) : Fenced options xs (f :: rest) :=
  .inr ⟨hx, f, rest, rfl, hf⟩

/-- Behind each segment of a line comes a fence. -/
theorem fenced_openings {options : Options} {xs : List Lexeme} (hx : Contained options xs)
    (hs' : ∀ h ∈ hs, h.OnLine) (hf : f.endsLine = true) :
    Fenced options xs (openings hs ++ f :: rest) := by
  cases hs with
  | nil => exact fenced_cons hx (Lexeme.isFence_of_endsLine hf)
  | cons h hs => exact fenced_cons hx (hs' h List.mem_cons_self).isFence_opener

/-- Where the body begins of a heredoc that is opened here, if the line ends behind `xs`. -/
theorem Place.body?_eq {l : Lexeme} {xs : List Lexeme}
    (hw : ls.drop w.index = l :: (xs ++ f :: rest)) (hx : ∀ x ∈ xs, x.endsLine = false)
    (hf : f.endsLine = true) : w.body? ls = some (w.resume.getD (w.index + 1 + xs.length) + 1) := by
  unfold body?
  cases hr : w.resume with
  | some r => rfl
  | none =>
    have hnone : xs.findIdx? Lexeme.endsLine = none := by
      rw [List.findIdx?_eq_none_iff]
      exact hx
    rw [drop_of_drop_cons hw, List.findIdx?_append, hnone, List.findIdx?_cons, hf]
    simp [Nat.add_assoc]

/-- The body of the next heredoc begins behind the last heredoc's end, or behind the line's end. -/
theorem Place.body?_openings (hf : ∀ x ∈ h :: hs, x.OnLine) (hend : f.endsLine = true)
    (hw : ls.drop w.index = openings (h :: hs) ++ f :: post) :
    w.body? ls = some (w.resume.getD (w.index + (openings (h :: hs)).length) + 1) := by
  have hline : ∀ x ∈ h.tail ++ openings hs, x.endsLine = false := fun x hx =>
    endsLine_of_mem_openings hf (List.mem_cons_of_mem h.opener hx)
  have hlength : w.index + 1 + (h.tail ++ openings hs).length =
      w.index + (openings (h :: hs)).length := by
    rw [openings_cons, List.length_cons]
    omega
  rw [body?_eq (by rw [hw, openings_cons, List.cons_append]) hline hend, hlength]

/-! ### The order of the lexer -/

theorem performs_opener (order : s.order = .lexer) (ho : s.options.KeepsKinds) (hf : h.OnLine)
    (hbody : w.body? ls = some b) (hw : ls.drop w.index = h.opener :: post) :
    Performs s ls (stretch s.lines s.options [h.opener]) w ⟨b, w.index :: w.openers, w.resume⟩
      [w.index] [.moved (.opened w.index b)] := by
  have hopen := performs_fence hf.isFence_opener hw (Stride.of_heredocBeg ho hf.opener [])
  have hnext : w.next ls (Stride.openHeredoc.inOrder s.order) =
      ⟨b, w.index :: w.openers, w.resume⟩ := by
    rw [order, Stride.inOrder, Place.next_openHeredoc hbody]
  have hevents : w.events s.order ls h.opener .openHeredoc = [.moved (.opened w.index b)] := by
    rw [order, Place.events, Stride.inOrder, Place.note?, hbody]
    rfl
  rw [hnext, hevents] at hopen
  exact hopen

/-- A run goes from an opener to the body, from the body's end back behind the opener, and on to the
next fence. -/
theorem Heredoc.performs (order : s.order = .lexer) (ho : s.options.KeepsKinds)
    (hf : h.Apart s.options) (hbody : w.body? ls = some b)
    (hw : ls.drop w.index = h.opener :: (h.tail ++ post)) (hpost : Fenced s.options h.tail post)
    (hdrop : ls.drop b = h.body ++ h.terminator :: rest) :
    Performs s ls (h.passage s.lines s.options) w
      ⟨w.index + 1 + h.tail.length, w.openers, some (b + h.body.length)⟩
      ([w.index] ++ (List.range' b h.body.length ++
        ([b + h.body.length] ++ List.range' (w.index + 1) h.tail.length)))
      [.moved (.opened w.index b), .moved (.closed (b + h.body.length : ℕ) (w.index + 1))] := by
  have hfence := Lexeme.isFence_of_heredocEnd hf.terminator
  have hopen := performs_opener order ho hf.toOnLine hbody hw
  have hread := performs_stretch (s := s) (w := ⟨b, w.index :: w.openers, w.resume⟩)
    hf.body.unmarked (fenced_cons hf.body.contained hfence) hdrop
    (.inr (.inr (.inl (List.cons_ne_nil _ _))))
  have hclose := performs_fence (w := ⟨b + h.body.length, w.index :: w.openers, w.resume⟩)
    hfence (drop_of_drop_append hdrop) (Stride.of_heredocEnd ho hf.terminator [])
  rw [order] at hclose
  have htail := performs_stretch (s := s)
    (w := ⟨w.index + 1, w.openers, some (b + h.body.length)⟩) hf.tail.unmarked hpost
    (drop_of_drop_cons hw) (.inr (.inr (.inr hf.line)))
  exact hopen.andThen (hread.andThen (hclose.andThen htail))

/-- The heredocs of a line: the run comes to the line's end, having read the line and the bodies. -/
theorem performs_heredocs (order : s.order = .lexer) (ho : s.options.KeepsKinds)
    (hf : ∀ h ∈ hs, h.Apart s.options) (hend : f.endsLine = true)
    (hw : ls.drop w.index = openings hs ++ f :: post)
    (hb : b = w.resume.getD (w.index + (openings hs).length) + 1)
    (hdrop : ls.drop b = bodies hs ++ rest) :
    ∃ v is es, Performs s ls (heredocsPassage s.lines s.options hs) w v is es ∧
      v.index = w.index + (openings hs).length ∧ v.openers = w.openers ∧
      v.resume.getD v.index + 1 = b + (bodies hs).length ∧
      ∀ k, is.count k = (List.range' w.index (openings hs).length).count k +
        (List.range' b (bodies hs).length).count k := by
  -- The next heredoc begins where the last one's end is pending, so `b` stays the next body.
  induction hs generalizing w b with
  | nil => exact ⟨w, [], [], performs_nothing w, rfl, rfl, hb.symm, fun k => rfl⟩
  | cons h hs ih =>
    have hh := hf h List.mem_cons_self
    have hfs : ∀ x ∈ hs, x.Apart s.options := fun x hx => hf x (.tail _ hx)
    have hbody := Place.body?_openings (fun x hx => (hf x hx).toOnLine) hend hw
    rw [← hb] at hbody
    rw [openings_cons, List.cons_append, List.append_assoc] at hw
    rw [bodies_cons, List.append_assoc, List.cons_append] at hdrop
    have hone := Heredoc.performs order ho hh hbody hw
      (fenced_openings hh.tail.contained (fun x hx => (hfs x hx).toOnLine) hend) hdrop
    obtain ⟨v, is, es, hall, hindex, hopeners, hresume, hcount⟩ :=
      ih (w := ⟨w.index + 1 + h.tail.length, w.openers, some (b + h.body.length)⟩)
        (b := b + h.body.length + 1) hfs (drop_of_drop_append (drop_of_drop_cons hw)) rfl
        (drop_of_drop_cons (drop_of_drop_append hdrop))
    refine ⟨v, _, _, hone.andThen hall, ?_, hopeners, ?_, fun k => ?_⟩
    · rw [hindex, openings_cons, List.length_cons, List.length_append]
      dsimp only
      omega
    · rw [hresume, bodies_cons, List.length_append, List.length_cons]
      omega
    · have hranges : List.range' w.index (openings (h :: hs)).length = [w.index] ++
          (List.range' (w.index + 1) h.tail.length ++
            List.range' (w.index + 1 + h.tail.length) (openings hs).length) := by
        rw [List.range'_append_1, openings_cons, List.length_cons, List.length_append,
          List.range'_succ]
        rfl
      have hranges' : List.range' b (bodies (h :: hs)).length = List.range' b h.body.length ++
          ([b + h.body.length] ++ List.range' (b + h.body.length + 1) (bodies hs).length) := by
        rw [bodies_cons, List.length_append, List.length_cons, ← List.range'_append_1,
          List.range'_succ]
        rfl
      rw [hranges, hranges']
      simp only [List.count_append, hcount]
      omega

/-- From an index on a run makes a passage, by which it reads the next `n` lexemes once each and
comes behind them. No heredoc is open, before or behind them, and no line is to be taken up again.
-/
def Crosses (s : Setting) (ls : List Lexeme) (P : Passage) (i n : ℕ) : Prop :=
  ∃ is es, Performs s ls P ⟨i, [], none⟩ ⟨i + n, [], none⟩ is es ∧
    ∀ k, is.count k = (List.range' i n).count k

theorem Crosses.andThen {P Q : Passage} {n m : ℕ} (h : Crosses s ls P i n)
    (h' : Crosses s ls Q (i + n) m) : Crosses s ls (P.andThen Q) i (n + m) := by
  obtain ⟨is, es, hP, hcount⟩ := h
  obtain ⟨is', es', hQ, hcount'⟩ := h'
  rw [Nat.add_assoc] at hQ
  refine ⟨_, _, hP.andThen hQ, fun k => ?_⟩
  rw [List.count_append, hcount, hcount', ← List.count_append, List.range'_append_1]

theorem crosses_stretch {xs : List Lexeme} (hx : Unmarked xs) (hpost : Fenced s.options xs post)
    (hw : ls.drop i = xs ++ post) : Crosses s ls (stretch s.lines s.options xs) i xs.length :=
  ⟨_, _, performs_stretch hx hpost hw (.inr (.inl rfl)), fun _ => rfl⟩

/-- A line is crossed as the lexer reports it. -/
theorem LineGroup.crosses_lexerOrder (order : s.order = .lexer) (ho : s.options.KeepsKinds)
    (hg : g.Apart s.options) (hw : ls.drop i = g.lexerOrder ++ post) :
    Crosses s ls (g.passage s.lines s.options) i g.lexerOrder.length := by
  rw [lexerOrder, List.append_assoc, List.append_assoc, List.cons_append] at hw
  have hlead := performs_stretch (s := s) (w := ⟨i, [], none⟩) hg.lead.unmarked
    (fenced_openings hg.lead.contained (fun h hh => (hg.heredocs h hh).toOnLine) hg.lineEnd) hw
    (.inr (.inl rfl))
  have hw' : ls.drop (i + g.lead.length) =
      openings g.heredocs ++ g.lineEnd :: (bodies g.heredocs ++ post) := drop_of_drop_append hw
  have hdrop : ls.drop (i + g.lead.length + (openings g.heredocs).length + 1) =
      bodies g.heredocs ++ post := drop_of_drop_cons (drop_of_drop_append hw')
  obtain ⟨v, is, es, hall, hindex, hopeners, hresume, hcount⟩ :=
    performs_heredocs (w := ⟨i + g.lead.length, [], none⟩)
      (b := i + g.lead.length + (openings g.heredocs).length + 1) order ho hg.heredocs hg.lineEnd
      hw' rfl hdrop
  have hv : ls.drop v.index = g.lineEnd :: (bodies g.heredocs ++ post) := by
    rw [hindex]
    exact drop_of_drop_append hw'
  have hline := performs_fence (Lexeme.isFence_of_endsLine hg.lineEnd) hv
    (Stride.of_endsLine ho hg.lineEnd [])
  have hlength : g.lexerOrder.length =
      g.lead.length + (openings g.heredocs).length + 1 + (bodies g.heredocs).length := by
    simp only [lexerOrder, List.length_append, List.length_cons]
    omega
  have hnext : v.next ls (Stride.endLine.inOrder s.order) =
      ⟨i + g.lexerOrder.length, [], none⟩ := by
    rw [order, Stride.inOrder]
    obtain ⟨j, openers, resume⟩ := v
    dsimp only at hindex hopeners hresume
    subst hopeners
    cases resume with
    | none =>
      rw [Option.getD_none] at hresume
      simp only [Place.next, Place.ahead, Place.mk.injEq, and_true]
      omega
    | some r =>
      rw [Option.getD_some] at hresume
      simp only [Place.next, Place.mk.injEq, and_true]
      omega
  rw [hnext] at hline
  refine ⟨_, _, hlead.andThen (hall.andThen hline), fun k => ?_⟩
  have hrange : List.range' i g.lexerOrder.length = List.range' i g.lead.length ++
      (List.range' (i + g.lead.length) (openings g.heredocs).length ++ ([v.index] ++
        List.range' (i + g.lead.length + (openings g.heredocs).length + 1)
          (bodies g.heredocs).length)) := by
    have hone : [v.index] = List.range' (i + g.lead.length + (openings g.heredocs).length) 1 := by
      rw [hindex, List.range'_one]
    rw [hone, List.range'_append_1, List.range'_append_1, List.range'_append_1, hlength]
    congr 1
    omega
  rw [hrange]
  simp only [List.count_append, hcount]
  omega

/-! ### The order of the grammar -/

/-- In the order of the grammar a fence is a lexeme like others. -/
theorem crosses_fence (order : s.order = .grammar) (hf : f.isFence = true)
    (hw : ls.drop i = f :: post) : Crosses s ls (stretch s.lines s.options [f]) i 1 := by
  have hfence := performs_fence (s := s) (w := ⟨i, [], none⟩) hf hw rfl
  have hfits := Stride.fits_of s.options f []
  have hcount : (Stride.of s.options f []).count = 0 :=
    Nat.le_zero.1 (Stride.count_of_le s.options f [])
  have hnext : (⟨i, [], none⟩ : Place).next ls ((Stride.of s.options f []).inOrder s.order) =
      ⟨i + 1, [], none⟩ := by
    rw [order]
    cases hs : Stride.of s.options f [] with
    | past k => rw [hs] at hcount; cases hcount; rfl
    | finish =>
      rw [hs] at hfits
      have hno : f.hasKind .dataEnd = false := Lexeme.not_hasKind_of_isFence hf (by decide)
      rw [Stride.Fits, hno] at hfits
      cases hfits
    | openHeredoc => rfl
    | closeHeredoc => rfl
    | endLine => rfl
  rw [hnext] at hfence
  exact ⟨_, _, hfence, fun _ => rfl⟩

theorem Heredoc.crosses_grammarOrder (order : s.order = .grammar) (hf : h.Apart s.options)
    (hpost : Fenced s.options h.tail post) (hw : ls.drop i = h.grammarOrder ++ post) :
    Crosses s ls (h.passage s.lines s.options) i h.grammarOrder.length := by
  rw [grammarOrder, List.cons_append, List.cons_append, List.append_assoc, List.cons_append] at hw
  have hbody := drop_of_drop_cons hw
  have hend := drop_of_drop_append hbody
  have hfence := Lexeme.isFence_of_heredocEnd hf.terminator
  have hall := (crosses_fence order hf.isFence_opener hw).andThen
    ((crosses_stretch hf.body.unmarked (fenced_cons hf.body.contained hfence) hbody).andThen
      ((crosses_fence order hfence hend).andThen
        (crosses_stretch hf.tail.unmarked hpost (drop_of_drop_cons hend))))
  have hlength : h.grammarOrder.length = 1 + (h.body.length + (1 + h.tail.length)) := by
    simp only [grammarOrder, List.length_cons, List.length_append]
    omega
  rw [hlength]
  exact hall

theorem crosses_heredocs (order : s.order = .grammar) (hf : ∀ h ∈ hs, h.Apart s.options)
    (hend : f.endsLine = true)
    (hw : ls.drop i = hs.flatMap Heredoc.grammarOrder ++ f :: post) :
    Crosses s ls (heredocsPassage s.lines s.options hs) i
      (hs.flatMap Heredoc.grammarOrder).length := by
  induction hs generalizing i with
  | nil => exact ⟨[], [], performs_nothing _, fun _ => rfl⟩
  | cons h hs ih =>
    have hh := hf h List.mem_cons_self
    have hfs : ∀ x ∈ hs, x.Apart s.options := fun x hx => hf x (.tail _ hx)
    rw [List.flatMap_cons, List.append_assoc] at hw
    have hpost : Fenced s.options h.tail (hs.flatMap Heredoc.grammarOrder ++ f :: post) := by
      cases hs with
      | nil => exact fenced_cons hh.tail.contained (Lexeme.isFence_of_endsLine hend)
      | cons x hs => exact fenced_cons hh.tail.contained (hfs x List.mem_cons_self).isFence_opener
    rw [List.flatMap_cons, List.length_append]
    exact (Heredoc.crosses_grammarOrder order hh hpost hw).andThen
      (ih hfs (drop_of_drop_append hw))

theorem LineGroup.crosses_grammarOrder (order : s.order = .grammar) (hg : g.Apart s.options)
    (hw : ls.drop i = g.grammarOrder ++ post) :
    Crosses s ls (g.passage s.lines s.options) i g.grammarOrder.length := by
  rw [grammarOrder, List.append_assoc, List.append_assoc, List.singleton_append] at hw
  have hpost : Fenced s.options g.lead
      (g.heredocs.flatMap Heredoc.grammarOrder ++ g.lineEnd :: post) := by
    cases hs : g.heredocs with
    | nil => exact fenced_cons hg.lead.contained (Lexeme.isFence_of_endsLine hg.lineEnd)
    | cons x hs' =>
      have hx : x ∈ g.heredocs := hs ▸ List.mem_cons_self
      exact fenced_cons hg.lead.contained (hg.heredocs x hx).isFence_opener
  have hw' := drop_of_drop_append hw
  have hend := drop_of_drop_append hw'
  have hall := (crosses_stretch (s := s) hg.lead.unmarked hpost hw).andThen
    ((crosses_heredocs order hg.heredocs hg.lineEnd hw').andThen
      (crosses_fence order (Lexeme.isFence_of_endsLine hg.lineEnd) hend))
  have hlength : g.grammarOrder.length =
      g.lead.length + ((g.heredocs.flatMap Heredoc.grammarOrder).length + 1) := by
    simp only [grammarOrder, List.length_append, List.length_singleton]
    omega
  rw [hlength]
  exact hall

/-! ### Whole runs -/

/-- Lines are crossed one behind the other, in whichever order each of them is crossed, and whatever
stands behind them. -/
theorem crosses_lines_append {groups : List LineGroup} {last : List Lexeme}
    {arrange : LineGroup → List Lexeme}
    (hgroup : ∀ g ∈ groups, ∀ i post, ls.drop i = arrange g ++ post →
      Crosses s ls (g.passage s.lines s.options) i (arrange g).length)
    (hlast : ∀ i, ls.drop i = last ++ post →
      Crosses s ls (stretch s.lines s.options last) i last.length)
    (hw : ls.drop i = groups.flatMap arrange ++ (last ++ post)) :
    Crosses s ls (linesPassage s.lines s.options groups last) i
      (groups.flatMap arrange ++ last).length := by
  induction groups generalizing i with
  | nil => exact hlast i hw
  | cons g groups ih =>
    rw [List.flatMap_cons, List.append_assoc] at hw ⊢
    rw [List.length_append]
    exact (hgroup g List.mem_cons_self i _ hw).andThen
      (ih (fun x hx => hgroup x (.tail _ hx)) (drop_of_drop_append hw))

theorem crosses_lines {groups : List LineGroup} {last : List Lexeme}
    {arrange : LineGroup → List Lexeme}
    (hgroup : ∀ g ∈ groups, ∀ i post, ls.drop i = arrange g ++ post →
      Crosses s ls (g.passage s.lines s.options) i (arrange g).length)
    (hlast : Unmarked last) (hw : ls.drop i = groups.flatMap arrange ++ last) :
    Crosses s ls (linesPassage s.lines s.options groups last) i
      (groups.flatMap arrange ++ last).length :=
  crosses_lines_append hgroup (fun _ => crosses_stretch hlast (.inl rfl))
    (hw.trans (by rw [List.append_nil]))

/-- A flat list is crossed as the lexer reports it. -/
theorem crosses_lexerOrder {groups : List LineGroup} {last : List Lexeme} (order : s.order = .lexer)
    (ho : s.options.KeepsKinds) (hgroups : ∀ g ∈ groups, g.Flat) (hlast : Segment last) :
    Crosses s (lexerOrder groups last) (linesPassage s.lines s.options groups last) 0
      (lexerOrder groups last).length :=
  crosses_lines (fun g hg _ _ => g.crosses_lexerOrder order ho ((hgroups g hg).apart _))
    hlast.kinds rfl

theorem crosses_grammarOrder {groups : List LineGroup} {last : List Lexeme}
    (order : s.order = .grammar) (hgroups : ∀ g ∈ groups, g.Flat) (hlast : Segment last) :
    Crosses s (grammarOrder groups last) (linesPassage s.lines s.options groups last) 0
      (grammarOrder groups last).length :=
  crosses_lines (fun g hg _ _ => g.crosses_grammarOrder order ((hgroups g hg).apart _)) hlast.kinds
    rfl

namespace Job

/-- The outcome that a passage through all lexemes has. -/
def outcomeOf : Except Failure (List Token × State) → Outcome
  | .error f => .failed f
  | .ok out => .tokens out.1

/-- A run that makes a passage through all lexemes has its outcome. -/
theorem outcome_of_crosses {j : Job} {P : Passage}
    (h : Crosses j.setting j.lexemes P 0 j.lexemes.length) : j.outcome = outcomeOf (P .beg) := by
  obtain ⟨is, es, hP, -⟩ := h
  have hcome := hP _ (Progress.start_isAt j.lexemes)
  change Progress.ComesTo _ _ _ _ _ _ (P .beg) at hcome
  rw [outcome_eq]
  cases hout : P .beg with
  | error f =>
    rw [hout] at hcome
    obtain ⟨q, hreach, hexhausted, hfail⟩ := hcome
    obtain ⟨k, hk⟩ := hreach.exists_run
    have hrun := (hk 1).trans (Progress.run_succ_of_failure hexhausted hfail 0)
    rw [run_eq_of_ends (by rw [hrun]; simp), hrun]
    rfl
  | ok out =>
    rw [hout] at hcome
    obtain ⟨q, hreach, hq, -, hadds⟩ := hcome
    obtain ⟨k, hk⟩ := hreach.exists_run
    have hexhausted : q.cursor.isExhausted = true :=
      (Progress.isExhausted_iff hq).2 (Nat.le_of_eq (Nat.zero_add _).symm)
    have hrun := (hk 0).trans (Progress.run_of_isExhausted hexhausted 0)
    rw [run_eq_of_ends (by rw [hrun]; simp), hrun]
    exact congrArg Outcome.tokens hadds.tokens

/-- Where a passage through all lexemes succeeds, each of them was read by one step. -/
theorem timesRead_of_crosses {j : Job} {P : Passage}
    (h : Crosses j.setting j.lexemes P 0 j.lexemes.length) (hend : j.run.2 = .finished) {k : ℕ}
    (hk : k < j.lexemes.length) : j.run.1.timesRead k = 1 := by
  obtain ⟨is, es, hP, hcount⟩ := h
  have hexhausted := Progress.isExhausted_of_run hend
  obtain ⟨q, hreach, hq, ts, hadds⟩ := hP.exists_of_isExhausted (Progress.start_isAt j.lexemes)
    (Progress.reaches_run j.setting (stepLimit j.lexemes.length) _) hexhausted
  have hqend : q.cursor.isExhausted = true :=
    (Progress.isExhausted_iff hq).2 (Nat.le_of_eq (Nat.zero_add _).symm)
  have heq : j.run.1 = q := by
    rcases Relation.ReflTransGen.cases_head hreach with heq | ⟨r, hs, -⟩
    · exact heq.symm
    · rw [Progress.isExhausted_of_step hs] at hqend
      cases hqend
  have hnone : (Progress.start j.lexemes).timesRead k = 0 := rfl
  rw [heq, hadds.timesRead, hcount, List.count_range_1', hnone, Nat.zero_add]
  exact if_pos ⟨Nat.zero_le k, by omega⟩

section

variable (source : Source) (options : Options) (groups : List LineGroup) (last : List Lexeme)

/-- The conversion of lines as the lexer reports them. -/
def reported : Job := { source, options, lexemes := lexerOrder groups last, order := .lexer }

/-- The conversion of lines in which each heredoc's body stands behind its opener; no heredoc moves
the cursor. -/
def arranged : Job := { source, options, lexemes := grammarOrder groups last, order := .grammar }

end

/-- Lexemes in the order of the lexer become what they become in the order of the grammar: the same
tokens, or the same failure. In success, one step has read each of them. -/
theorem outcome_reported (source : Source) {options : Options} (ho : options.KeepsKinds)
    {groups : List LineGroup} {last : List Lexeme} (hgroups : ∀ g ∈ groups, g.Flat)
    (hlast : Segment last) :
    (reported source options groups last).outcome = (arranged source options groups last).outcome ∧
      (reported source options groups last).outcome ≠ .unfinished ∧
      ((reported source options groups last).run.2 = .finished →
        ∀ k < (lexerOrder groups last).length,
          (reported source options groups last).run.1.timesRead k = 1) := by
  have hcross := crosses_lexerOrder (s := (reported source options groups last).setting) rfl ho
    hgroups hlast
  have hlexer := outcome_of_crosses (j := reported source options groups last) hcross
  have hgrammar := outcome_of_crosses (j := arranged source options groups last)
    (crosses_grammarOrder rfl hgroups hlast)
  refine ⟨hlexer.trans hgrammar.symm, ?_, fun hend k hk => timesRead_of_crosses hcross hend hk⟩
  rw [hlexer]
  cases linesPassage _ _ groups last .beg <;> simp [outcomeOf]

/-- Two heredocs on one line. -/
def heredocLine : LineGroup where
  lead := [
    ⟨1, 0, LexemeKind.identifier.name, "p", .cmdArg⟩, ⟨1, 1, LexemeKind.space.name, " ", .cmdArg⟩]
  heredocs := [
    { opener := ⟨1, 2, LexemeKind.heredocBeg.name, "<<A", .ended⟩
      tail := [
        ⟨1, 5, LexemeKind.comma.name, ",", .beg⟩, ⟨1, 6, LexemeKind.space.name, " ", .beg⟩]
      body := [⟨2, 0, LexemeKind.tstringContent.name, "a\n", .beg⟩]
      terminator := ⟨3, 0, LexemeKind.heredocEnd.name, "A\n", .beg⟩ },
    { opener := ⟨1, 7, LexemeKind.heredocBeg.name, "<<B", .ended⟩
      tail := []
      body := [⟨4, 0, LexemeKind.tstringContent.name, "b\n", .beg⟩]
      terminator := ⟨5, 0, LexemeKind.heredocEnd.name, "B\n", .beg⟩ }]
  lineEnd := ⟨1, 10, LexemeKind.newline.name, "\n", .beg⟩

theorem flat_heredocLine : heredocLine.Flat where
  lead := ⟨plain_of_forall (by decide), by decide⟩
  lead_closed := by decide
  heredocs h hh := by
    simp only [heredocLine, List.mem_cons, List.not_mem_nil, or_false] at hh
    rcases hh with rfl | rfl
    · exact ⟨by decide, ⟨plain_of_forall (by decide), by decide⟩, by decide, by decide, by decide⟩
    · exact ⟨by decide, ⟨plain_of_forall (by decide), by decide⟩, by decide, by decide, by decide⟩
  lineEnd := by decide
  bodies h hh := by
    simp only [heredocLine, List.mem_cons, List.not_mem_nil, or_false] at hh
    rcases hh with rfl | rfl <;> exact plain_of_forall (by decide)

def heredocSource : Source := ⟨"two.rb", "p <<A, <<B\na\nA\nb\nB\n"⟩

theorem outcome_reported_heredocLine :
    (reported heredocSource {} [heredocLine] []).outcome =
        (arranged heredocSource {} [heredocLine] []).outcome ∧
      (reported heredocSource {} [heredocLine] []).outcome ≠ .unfinished ∧
      ((reported heredocSource {} [heredocLine] []).run.2 = .finished →
        ∀ k < (lexerOrder [heredocLine] []).length,
          (reported heredocSource {} [heredocLine] []).run.1.timesRead k = 1) :=
  outcome_reported heredocSource (fun _ h => LexemeKind.name_inj h)
    (fun _ hg => List.mem_singleton.1 hg ▸ flat_heredocLine)
    ⟨plain_of_forall (List.forall_mem_nil _), List.forall_mem_nil _⟩

end Job

end RubyTokens
