import RubyTokens.Proofs.Conversion.Shift
import RubyTokens.Proofs.Heredoc.Order

/-! Conversions one behind the other. Complete lines leave nothing behind but the lexer's state
after the end of the last one: no heredoc is open, no line is to be taken up again, and no fold goes
on. If that state is the one in which a conversion begins, the lexemes behind the lines are
converted as they are alone, whatever they are. -/

namespace RubyTokens

variable {lines : LineTable} {options : Options} {state : State} {P Q : Passage}
variable {out : List Token × State} {l : Lexeme} {g : LineGroup} {groups : List LineGroup}

/-! ### The state behind lines -/

theorem Passage.exists_of_andThen (h : P.andThen Q state = .ok out) :
    ∃ mid last, P state = .ok mid ∧ Q mid.2 = .ok last ∧ out.2 = last.2 := by
  unfold andThen at h
  cases hP : P state with
  | error f => rw [hP] at h; cases h
  | ok mid =>
    rw [hP] at h
    dsimp only at h
    cases hQ : Q mid.2 with
    | error f => rw [hQ] at h; cases h
    | ok last =>
      rw [hQ] at h
      cases h
      exact ⟨mid, last, rfl, hQ, rfl⟩

/-- Behind a lexeme on its own the lexer is in the state that the lexeme says. -/
theorem state_of_stretch_singleton (h : stretch lines options [l] state = .ok out) :
    out.2 = l.stateAfter := by
  rw [stretch, List.drop_nil, stretch] at h
  obtain ⟨mid, last, hfirst, hnothing, hout⟩ := Passage.exists_of_andThen h
  cases hnothing
  unfold Passage.first at hfirst
  cases hr : reading lines options state [l] with
  | error f => rw [hr] at hfirst; cases hfirst
  | ok r =>
    rw [hr] at hfirst
    cases hfirst
    have hone : ∀ n, [l].getD n l = l := fun n => by cases n <;> rfl
    rw [hout]
    exact congrArg Lexeme.stateAfter (hone _)

theorem LineGroup.state_of_passage (h : g.passage lines options state = .ok out) :
    out.2 = g.lineEnd.stateAfter := by
  obtain ⟨lead, rest, -, hrest, hout⟩ := Passage.exists_of_andThen h
  obtain ⟨heredocs, ending, -, hending, hout'⟩ := Passage.exists_of_andThen hrest
  rw [hout, hout', state_of_stretch_singleton hending]

/-- Behind lines the lexer is in the state after the end of the last one. -/
theorem state_of_linesPassage (h : linesPassage lines options groups [] state = .ok out) :
    out.2 = (groups.getLast?.map fun g => g.lineEnd.stateAfter).getD state := by
  induction groups generalizing state out with
  | nil =>
    rw [linesPassage, stretch] at h
    cases h
    rfl
  | cons g groups ih =>
    obtain ⟨mid, last, hg, hgroups, hout⟩ := Passage.exists_of_andThen h
    rw [hout, ih hgroups, g.state_of_passage hg, List.getLast?_cons, Option.map_some,
      Option.getD_some, Option.getD_map]

/-! ### Runs -/

/-- Flat lines are crossed as the lexer reports them, whatever stands behind them. -/
theorem crosses_groups {s : Setting} (order : s.order = .lexer) (ho : s.options.KeepsKinds)
    (hgroups : ∀ g ∈ groups, g.Flat) (ls : List Lexeme) :
    Crosses s (groups.flatMap LineGroup.lexerOrder ++ ls)
      (linesPassage s.lines s.options groups []) 0
      (groups.flatMap LineGroup.lexerOrder).length := by
  have hnothing : ∀ i, (groups.flatMap LineGroup.lexerOrder ++ ls).drop i = [] ++ ls →
      Crosses s (groups.flatMap LineGroup.lexerOrder ++ ls) (stretch s.lines s.options []) i 0 := by
    intro i _
    rw [stretch]
    exact ⟨[], [], performs_nothing _, fun _ => rfl⟩
  have hcross := crosses_lines_append (i := 0)
    (fun g hg _ _ => g.crosses_lexerOrder order ho ((hgroups g hg).apart _)) hnothing rfl
  rw [List.append_nil] at hcross
  exact hcross

/-- A run that makes a passage through the lexemes in front, and has the lexer in its first state
behind them, goes on as a run that begins there. -/
theorem Crosses.exists_shifted {s : Setting} {front ls : List Lexeme} {ts : List Token}
    (h : Crosses s (front ++ ls) P 0 front.length) (hP : P .beg = .ok (ts, .beg)) :
    ∃ q, Progress.Reaches s (.start (front ++ ls)) q ∧
      Progress.Shifted front ls ts (.start ls) q := by
  obtain ⟨is, es, hperforms, -⟩ := h
  have hcome := hperforms _ (Progress.start_isAt (front ++ ls))
  change Progress.ComesTo _ _ _ _ _ _ (P .beg) at hcome
  rw [hP, Nat.zero_add] at hcome
  obtain ⟨q, hreach, hq, hstate, hadds⟩ := hcome
  refine ⟨q, hreach, ⟨⟨0, [], none⟩, Progress.start_isAt ls, hq⟩, hstate, ?_⟩
  rw [hadds.tokens]
  exact (List.append_nil ts).symm

/-- Lines that are converted alone are passed with their tokens, whatever stands behind them. -/
theorem passage_of_convert (source : Source) (ho : options.KeepsKinds)
    (hgroups : ∀ g ∈ groups, g.Flat) {ts : List Token}
    (h : convert source (groups.flatMap LineGroup.lexerOrder) options = .tokens ts) :
    ∃ state, linesPassage (.ofSource source) options groups [] .beg = .ok (ts, state) := by
  let j : Job := { source, lexemes := groups.flatMap LineGroup.lexerOrder, options }
  have hcross := crosses_groups (s := j.setting) rfl ho hgroups []
  rw [List.append_nil] at hcross
  have hout : j.outcome = .tokens ts := h
  rw [Job.outcome_of_crosses (j := j) hcross] at hout
  change Job.outcomeOf (linesPassage (.ofSource source) options groups [] .beg) = _ at hout
  cases hpassage : linesPassage (.ofSource source) options groups [] .beg with
  | error f => rw [hpassage] at hout; cases hout
  | ok out => rw [hpassage] at hout; cases hout; exact ⟨out.2, rfl⟩

/-- If lines are converted and the lexer is in its first state behind them, then what follows them
is converted as it is alone: its tokens follow those of the lines, or it fails with the same
failure, or neither conversion ends. -/
theorem convert_append (source : Source) {options : Options} (ho : options.KeepsKinds)
    {groups : List LineGroup} (hgroups : ∀ g ∈ groups, g.Flat)
    (hlast : ∀ g ∈ groups.getLast?, g.lineEnd.stateAfter = .beg) {ts : List Token}
    (h : convert source (groups.flatMap LineGroup.lexerOrder) options = .tokens ts)
    (ls : List Lexeme) :
    convert source (groups.flatMap LineGroup.lexerOrder ++ ls) options =
      (convert source ls options).behind ts := by
  let j : Job := { source, lexemes := ls, options }
  obtain ⟨state, hpassage⟩ := passage_of_convert source ho hgroups h
  have hstate : state = .beg := by
    have hout := state_of_linesPassage hpassage
    cases hg : groups.getLast? with
    | none => rw [hg] at hout; exact hout
    | some g => rw [hg] at hout; exact hout.trans (hlast g hg)
  obtain ⟨q, hreach, hshifted⟩ :=
    (crosses_groups (s := j.setting) rfl ho hgroups ls).exists_shifted (hstate ▸ hpassage)
  exact Job.outcome_withFront (j := j) hreach hshifted

def threeHeredocs : Source := ⟨"three.rb", "p <<A, <<B\na\nA\nb\nB\nq <<C, 1\nc\nC\n"⟩

def firstLineTokens : List Token := [
  ⟨.identifier, .text "p", .sized 0 1⟩, ⟨.stringBeg, .text "<<", .sized 2 3⟩,
  ⟨.stringContent, .text "a\n", .sized 11 2⟩, ⟨.stringEnd, .text "A", .sized 13 1⟩,
  ⟨.comma, .text ",", .sized 5 1⟩, ⟨.stringBeg, .text "<<", .sized 7 3⟩,
  ⟨.stringContent, .text "b\n", .sized 15 2⟩, ⟨.stringEnd, .text "B", .sized 17 1⟩,
  ⟨.newline, .absent, .sized 10 1⟩]

/-- A line with a heredoc of its own. -/
def thirdHeredoc : List Lexeme := [
  ⟨6, 0, LexemeKind.identifier.name, "q", .cmdArg⟩, ⟨6, 1, LexemeKind.space.name, " ", .cmdArg⟩,
  ⟨6, 2, LexemeKind.heredocBeg.name, "<<C", .ended⟩, ⟨6, 5, LexemeKind.comma.name, ",", .beg⟩,
  ⟨6, 6, LexemeKind.space.name, " ", .beg⟩, ⟨6, 7, LexemeKind.integer.name, "1", .ended⟩,
  ⟨6, 8, LexemeKind.newline.name, "\n", .beg⟩,
  ⟨7, 0, LexemeKind.tstringContent.name, "c\n", .beg⟩,
  ⟨8, 0, LexemeKind.heredocEnd.name, "C\n", .beg⟩]

def thirdHeredocTokens : List Token := [
  ⟨.identifier, .text "q", .sized 19 1⟩, ⟨.stringBeg, .text "<<", .sized 21 3⟩,
  ⟨.stringContent, .text "c\n", .sized 28 2⟩, ⟨.stringEnd, .text "C", .sized 30 1⟩,
  ⟨.comma, .text ",", .sized 24 1⟩, ⟨.integer, .integer 1, .sized 26 1⟩,
  ⟨.newline, .absent, .sized 27 1⟩]

theorem convert_append_heredocLine :
    convert threeHeredocs ([Job.heredocLine].flatMap LineGroup.lexerOrder) =
        .tokens firstLineTokens ∧
      convert threeHeredocs thirdHeredoc = .tokens thirdHeredocTokens ∧
      convert threeHeredocs ([Job.heredocLine].flatMap LineGroup.lexerOrder ++ thirdHeredoc) =
        .tokens (firstLineTokens ++ thirdHeredocTokens) := by
  have h : convert threeHeredocs ([Job.heredocLine].flatMap LineGroup.lexerOrder) =
      .tokens firstLineTokens := by decide +kernel
  have h' : convert threeHeredocs thirdHeredoc = .tokens thirdHeredocTokens := by decide +kernel
  refine ⟨h, h', ?_⟩
  rw [convert_append threeHeredocs (fun _ hk => LexemeKind.name_inj hk)
    (fun _ hg => List.mem_singleton.1 hg ▸ Job.flat_heredocLine) (by decide) h thirdHeredoc, h']
  rfl

end RubyTokens
