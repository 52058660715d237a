import Mathlib.Tactic.Common
import RubyTokens.Command.Listing
import RubyTokens.Proofs.Conversion.Walk
import RubyTokens.Proofs.Json.Rows
import RubyTokens.Proofs.Source.Tiling

/-! What the listing command prints. It reads the source with all line ends unified, and lists what
the conversion makes of that text. A carriage return in the source is another character there, or
none at all, so the command prints what the conversion makes of the source itself exactly where the
source has no carriage return. -/

namespace RubyTokens

/-- A program's output with the listing of some tokens of a source. -/
def listed (source : Source) (tokens : List Token) : Except CommandError String :=
  ((listTokens source tokens).mapError .listing).map fun lines =>
    String.intercalate "\n" lines ++ "\n"

/-- Whether the command prints the listing of the tokens that a conversion answers for the source
text itself, under every path, with every dump and every profile, if the tokens have texts. -/
def PrintsListing (text : String) : Prop :=
  ∀ (r : ListingRequest) (tree : FileTree) (dump : Path) (profile : Profile)
    (lexemes : List Lexeme) (tokens : List Token),
    r.dump = some dump → r.profile = some profile → r.output = none →
    tree.read r.source = .ok text → readDump tree.read dump = .ok lexemes →
    convert ⟨r.source.text, text⟩ lexemes (.ofProfile profile) = .tokens tokens →
    (∀ t ∈ tokens, Source.slice ⟨r.source.text, text⟩ t.span ≠ none) →
    (r.answer tree).map ListingAnswer.stdout = listed ⟨r.source.text, text⟩ tokens

/-- A text as it is read from a file that holds it. -/
def unified (text : String) : String := String.ofList (unifyNewlines text.toList)

theorem unified_of_no_return {text : String} (h : '\r' ∉ text.toList) : unified text = text := by
  rw [unified, unifyNewlines_of_no_return h, String.ofList_toList]

theorem readText_of_read {read : ReadFile} {p : Path} {text : String} (h : read p = .ok text) :
    readText read p = .ok (unified text) := by
  rw [readText, h]
  rfl

theorem Job.tokens_of_outcome {j : Job} {ts : List Token} (h : j.outcome = .tokens ts) :
    ∃ events, j.tokens = .ok (ts, events) := by
  have hreport : j.report = ⟨.tokens ts, j.report.events⟩ := by
    rw [← h]
    rfl
  exact ⟨j.report.events, by rw [Job.tokens, hreport]⟩

/-- The command lists what the conversion makes of the unified text. -/
theorem ListingRequest.stdout_answer {r : ListingRequest} {tree : FileTree} {dump : Path}
    {profile : Profile} {text : String} {lexemes : List Lexeme} {tokens : List Token}
    (hdump : r.dump = some dump) (hprofile : r.profile = some profile) (houtput : r.output = none)
    (hsource : tree.read r.source = .ok text) (hlexemes : readDump tree.read dump = .ok lexemes)
    (htokens : convert ⟨r.source.text, unified text⟩ lexemes (.ofProfile profile) =
      .tokens tokens) :
    (r.answer tree).map ListingAnswer.stdout = listed ⟨r.source.text, unified text⟩ tokens := by
  have hread : readSource tree.read r.source = .ok ⟨r.source.text, unified text⟩ := by
    rw [readSource, readText_of_read hsource]
    rfl
  obtain ⟨events, hjob⟩ := Job.tokens_of_outcome htokens
  have hlisting : r.listing tree.read =
      ((listTokens ⟨r.source.text, unified text⟩ tokens).mapError .listing).map (⟨·, events⟩) := by
    rw [ListingRequest.listing, hread, hprofile, hdump]
    change (readDump tree.read dump >>= _) = _
    rw [hlexemes]
    change (Job.tokens _ >>= _) = _
    rw [hjob]
    change ((listTokens ⟨r.source.text, unified text⟩ tokens).mapError CommandError.listing >>=
      fun lines => .ok (Listing.mk lines events)) = _
    cases listTokens ⟨r.source.text, unified text⟩ tokens <;> rfl
  rw [ListingRequest.answer, hlisting, houtput, listed]
  cases listTokens ⟨r.source.text, unified text⟩ tokens <;> rfl

/-! ### A source with a carriage return -/

variable {pre post : List Char}

theorem unifyNewlines_append_return (h : '\r' ∉ pre) (post : List Char) :
    ∃ rest, unifyNewlines (pre ++ '\r' :: post) = pre ++ '\n' :: rest := by
  induction pre with
  | nil =>
    rw [List.nil_append]
    cases post with
    | nil => exact ⟨[], rfl⟩
    | cons c cs =>
      by_cases hc : c = '\n'
      · subst hc
        exact ⟨unifyNewlines cs, rfl⟩
      · refine ⟨unifyNewlines (c :: cs), ?_⟩
        rw [unifyNewlines]
        · rfl
        · exact fun cs' h => hc (List.cons.inj h).1
  | cons c pre ih =>
    rw [List.mem_cons, not_or] at h
    obtain ⟨rest, hrest⟩ := ih h.2
    refine ⟨rest, ?_⟩
    rw [List.cons_append, unifyNewlines, hrest, List.cons_append]
    · intro cs hcs
      exact absurd hcs.symm h.1
    · exact fun hreturn => h.1 hreturn.symm

theorem quoteOf_eq (t : Text) : quoteOf t = doubleQuote ∨ quoteOf t = singleQuote := by
  unfold quoteOf
  split_ifs <;> simp

/-- The quoted texts with the two line ends in the same place are different. -/
theorem quoted_return_ne_feed (cs : List Char) :
    quoted (String.ofList (cs ++ ['\r'])) ≠ quoted (String.ofList (cs ++ ['\n'])) := by
  have hquote : quoteOf (String.ofList (cs ++ ['\r'])) =
      quoteOf (String.ofList (cs ++ ['\n'])) := by
    simp [quoteOf, singleQuote, doubleQuote]
  intro h
  -- The quotes do not depend on the line ends, so what stands around these cancels.
  have h := String.ofList_injective h
  simp only [quotedChars, hquote, Text.points_ofString, String.toList_ofList, List.map_append,
    List.flatMap_append, List.cons_append, List.append_assoc, List.cons.injEq, true_and,
    List.append_cancel_left_eq] at h
  rcases quoteOf_eq (String.ofList (cs ++ ['\n'])) with hq | hq <;> rw [hq] at h <;>
    exact absurd h (by decide)

theorem slice_through (name : String) {c : Char} (hc : c.utf8Size = 1) (pre post : List Char) :
    Source.slice ⟨name, String.ofList (pre ++ c :: post)⟩ (.sized 0 (byteCount pre + 1)) =
      some (String.ofList (pre ++ [c])) := by
  have hsize : (String.ofList (pre ++ [c])).utf8ByteSize = byteCount pre + 1 := by
    rw [utf8ByteSize_ofList, byteCount_append, byteCount_cons, hc]
    rfl
  rw [← hsize]
  refine (Source.shows_iff fun h => ?_).2 ⟨[], post, ?_, rfl⟩
  · rw [h] at hsize
    exact absurd hsize.symm (Nat.succ_ne_zero _)
  · simp

/-- A lexeme on its own that asks for no move is converted in one step. -/
theorem convert_singleton {source : Source} {l : Lexeme} {options : Options} {ts : List Token}
    (h : Yield.ofLexeme (.ofSource source) options .beg (.start [l]) l = .ok { tokens := ts }) :
    convert source [l] options = .tokens ts := by
  have hcurrent : (Progress.start [l]).cursor.current = .ok l := rfl
  have hstep : ∃ next, Progress.step ⟨.ofSource source, options, .lexer⟩ (.start [l]) = .ok next ∧
      next.cursor.isExhausted = true ∧ next.tokens = ts := by
    rw [Progress.step, hcurrent]
    dsimp only
    rw [show Yield.ofLexeme (LineTable.ofSource source) options (Progress.start [l]).state
      (Progress.start [l]).cursor l = _ from h]
    exact ⟨_, rfl, rfl, List.append_nil ts⟩
  obtain ⟨next, hstep, hend, htokens⟩ := hstep
  have hrun : Job.run { source, lexemes := [l], options } = (next, .finished) :=
    (Progress.run_succ_of_step rfl hstep _).trans (Progress.run_of_isExhausted hend _)
  refine Job.outcome_eq_tokens_iff.2 ?_
  rw [hrun]
  exact ⟨rfl, htokens⟩

/-- A lexeme with a piece of a string, at the beginning of its source. -/
def contentLexeme (x : String) : Lexeme := ⟨1, 0, LexemeKind.tstringContent.name, x, .beg⟩

theorem convert_contentLexeme {source : Source} {x : String}
    (h : x.utf8ByteSize ≤ source.byteLength) :
    convert source [contentLexeme x] =
      .tokens [⟨.stringContent, .text x, .sized 0 x.utf8ByteSize⟩] := by
  have hspan : Yield.spanOf (.ofSource source) (contentLexeme x) =
      .ok (.sized 0 x.utf8ByteSize) := by
    have hstart : (lineStarts source)[0]? = some 0 := by
      unfold lineStarts
      dsimp only
      split_ifs <;> rfl
    have hline : (LineTable.ofSource source).offset 1 0 = .ok 0 :=
      LineTable.offset_eq_ok_iff.2 ⟨Int.le_refl 1, 0, hstart, rfl⟩
    have hsize : (LineTable.ofSource source).span 1 0 x.utf8ByteSize =
        .ok (.sized 0 x.utf8ByteSize) :=
      LineTable.span_eq_ok_iff.2 ⟨0, hline, by rwa [Nat.zero_add], rfl⟩
    have hbytes : (contentLexeme x).byteLength = .ok x.utf8ByteSize := by
      rw [Lexeme.byteLength, contentLexeme, Text.string_ofString]
      rfl
    rw [Yield.spanOf, hbytes]
    change Except.mapError _ ((LineTable.ofSource source).span 1 0 x.utf8ByteSize) = _
    rw [hsize]
    rfl
  have hrole : Role.of {} (contentLexeme x).kind = .direct .stringContent :=
    Role.of_name {} .tstringContent (by decide)
  refine convert_singleton ?_
  rw [Yield.ofLexeme, hrole]
  change (Yield.single _ _ _ _ >>= _) = _
  rw [Yield.single, hspan]
  rfl

/-- The text of a dump with that lexeme alone. -/
def contentDump (x : String) : String :=
  String.ofList (Json.rowChars LexemeKind.tstringContent.name.toList x.toList)

theorem readDump_contentDump {read : ReadFile} {p : Path} {x : String}
    (hx : x.toList.all Json.isPlain = true) (h : read p = .ok (contentDump x)) :
    readDump read p = .ok [contentLexeme x] := by
  have hkind : LexemeKind.tstringContent.name.toList.all Json.isPlain = true := by decide
  have hreturn : '\r' ∉ (contentDump x).toList := by
    rw [contentDump, String.toList_ofList]
    exact Json.return_notMem_rowChars hkind hx
  have htext : (⟨x.toList.map .char⟩ : Text) = x := rfl
  have hdump : Dump.read p.text (contentDump x) = .ok [contentLexeme x] := by
    rw [Dump.read, contentDump, Json.read_rowChars hkind hx, htext]
    rfl
  simp only [readDump, readText_of_read h, unified_of_no_return hreturn, bind, Except.bind, hdump,
    Except.mapError]

/-- Equal listings of a token show equal texts of its range. -/
theorem quoted_eq_of_listed {s s' : Source} {t : Token} {payload text text' : String}
    (hpayload : t.payload.shown = .ok payload) (h : s.slice t.span = some text)
    (h' : s'.slice t.span = some text') (hlisted : listed s [t] = listed s' [t]) :
    quoted text = quoted text' := by
  obtain ⟨head, hhead⟩ : ∃ head, ∀ (s : Source) (text : String), s.slice t.span = some text →
      listed s [t] = .ok (head ++ quoted text ++ "\n") := by
    refine ⟨s!"[{0}] {t.kind.name} payload={payload} range={t.span.pairText} text=",
      fun s text h => ?_⟩
    rw [listed, listTokens, linesFrom, Token.line, hpayload, Token.sourceText, h]
    rfl
  rw [hhead s text h, hhead s' text' h', Except.ok.injEq, ← String.toList_inj] at hlisted
  simp only [String.toList_append, List.append_assoc, List.append_cancel_left_eq,
    List.append_cancel_right_eq] at hlisted
  exact String.toList_inj.1 hlisted

/-- There is a text of every length that a JSON text holds as it is. -/
theorem exists_plain_of_length (n : ℕ) :
    ∃ x : String, x.toList.all Json.isPlain = true ∧ x.utf8ByteSize = n := by
  refine ⟨String.ofList (List.replicate n 'x'), ?_, ?_⟩
  · simp [Json.isPlain, doubleQuote]
  · rw [utf8ByteSize_ofList]
    induction n with
    | zero => rfl
    | succ n ih =>
      rw [List.replicate_succ, byteCount_cons, ih, Nat.add_comm]
      rfl

/-! ### The condition -/

/-- A source and a dump in the working directory. -/
def besideDump (text dump : String) : FileTree := ⟨[(["a.rb"], text), (["d.json"], dump)]⟩

/-- The request for the listing of that source. -/
def listBeside : ListingRequest where
  source := ⟨"", ["a.rb"]⟩
  dump := some ⟨"", ["d.json"]⟩
  output := none
  profile := some .current
  verbose := false

/-- A lexeme over the first carriage return and all before it has a text that ends with it, but the
command shows a line feed in its place. -/
theorem not_printsListing (hpre : '\r' ∉ pre) (post : List Char) :
    ¬ PrintsListing (String.ofList (pre ++ '\r' :: post)) := by
  intro hprints
  obtain ⟨rest, hrest⟩ := unifyNewlines_append_return hpre post
  have hunified : unified (String.ofList (pre ++ '\r' :: post)) =
      String.ofList (pre ++ '\n' :: rest) := by
    rw [unified, String.toList_ofList, hrest]
  obtain ⟨x, hplain, hlength⟩ := exists_plain_of_length (byteCount pre + 1)
  have hlexemes : readDump (besideDump (String.ofList (pre ++ '\r' :: post)) (contentDump x)).read
      ⟨"", ["d.json"]⟩ = .ok [contentLexeme x] := readDump_contentDump hplain rfl
  -- Both line ends have one byte, so the token and its range are the same in both texts.
  have htokens : ∀ (c : Char) (cs : List Char), c.utf8Size = 1 →
      convert ⟨"a.rb", String.ofList (pre ++ c :: cs)⟩ [contentLexeme x] =
        .tokens [⟨.stringContent, .text x, .sized 0 (byteCount pre + 1)⟩] := by
    intro c cs hc
    rw [← hlength]
    refine convert_contentLexeme ?_
    rw [hlength, Source.byteLength, utf8ByteSize_ofList, byteCount_append, byteCount_cons, hc]
    omega
  have hshown := slice_through "a.rb" (c := '\r') rfl pre post
  have hprinted := hprints listBeside _ _ .current _ _ rfl rfl rfl rfl hlexemes (htokens _ _ rfl)
    (List.forall_mem_singleton.2 (ne_of_eq_of_ne hshown (Option.some_ne_none _)))
  have hanswer := ListingRequest.stdout_answer (r := listBeside) rfl rfl rfl rfl hlexemes
    (hunified ▸ htokens '\n' rest rfl)
  rw [hunified, hprinted] at hanswer
  exact quoted_return_ne_feed pre
    (quoted_eq_of_listed rfl hshown (slice_through _ rfl pre rest) hanswer)

/-- The command prints the listing for the source itself exactly for sources without carriage
returns. -/
theorem printsListing_iff {text : String} : PrintsListing text ↔ '\r' ∉ text.toList := by
  constructor
  · intro hprints hreturn
    obtain ⟨pre, post, htext, hpre⟩ := List.eq_append_cons_of_mem hreturn
    refine not_printsListing hpre post ?_
    rwa [← htext, String.ofList_toList]
  · intro h r tree dump profile lexemes tokens hdump hprofile houtput hsource hlexemes htokens _
    have hanswer := ListingRequest.stdout_answer hdump hprofile houtput hsource hlexemes
      ((unified_of_no_return h).symm ▸ htokens)
    rwa [unified_of_no_return h] at hanswer

/-- The lexemes of two lines, of which the first one ends with a carriage return and a line feed. -/
def returnFeed : List Lexeme := [
  ⟨1, 0, LexemeKind.identifier.name, "x", .cmdArg⟩, ⟨1, 1, LexemeKind.newline.name, "\r\n", .beg⟩,
  ⟨2, 0, LexemeKind.identifier.name, "y", .cmdArg⟩]

/-- The dump of these lexemes. -/
def returnFeedDump : String :=
  r#"[[[1,0],"on_ident","x",32],[[1,1],"on_nl","\r\n",1],[[2,0],"on_ident","y",32]]"#

/-- The command shows the second line as part of the line end, and lists its lexeme with a range
that is one byte to the left. -/
theorem stdout_answer_returnFeed :
    (readDump (besideDump "x\r\ny" returnFeedDump).read ⟨"", ["d.json"]⟩).toOption =
        some returnFeed ∧
      convert ⟨"a.rb", "x\r\ny"⟩ returnFeed = .tokens [
        ⟨.identifier, .text "x", .sized 0 1⟩, ⟨.newline, .absent, .sized 1 2⟩,
        ⟨.identifier, .text "y", .sized 3 1⟩] ∧
      (listed ⟨"a.rb", "x\r\ny"⟩ [
        ⟨.identifier, .text "x", .sized 0 1⟩, ⟨.newline, .absent, .sized 1 2⟩,
        ⟨.identifier, .text "y", .sized 3 1⟩]).toOption = some (
          "[0] tIDENTIFIER payload='x' range=(0, 1) text='x'\n" ++
          "[1] tNL payload=None range=(1, 3) text='\\r\\n'\n" ++
          "[2] tIDENTIFIER payload='y' range=(3, 4) text='y'\n") ∧
      ((listBeside.answer (besideDump "x\r\ny" returnFeedDump)).map
        ListingAnswer.stdout).toOption = some (
          "[0] tIDENTIFIER payload='x' range=(0, 1) text='x'\n" ++
          "[1] tNL payload=None range=(1, 3) text='\\ny'\n" ++
          "[2] tIDENTIFIER payload='y' range=(2, 3) text='y'\n") := by
  decide +kernel

end RubyTokens
