import Mathlib.Data.List.Forall2
import RubyTokens.Command.Listing
import RubyTokens.Proofs.Token.Legible

/-! The two outputs of the listing command. What it prints and what it writes to a file are put
together in two ways, but both have the lines of the tokens as their lines, one for each token, and
where there is a token they are the same. The lines stay apart because none of them has a character
that breaks lines. -/

namespace RubyTokens

/-! ### Lines of a text -/

/-- The characters that end a line: those from the line feed to the carriage return, the information
separators but the last, the next line, and the separators of lines and paragraphs. -/
def lineBreaks : List Char :=
  ['\n', '\x0B', '\x0C', '\r', '\x1C', '\x1D', '\x1E', '\x85', '\u2028', '\u2029']

/-- The lines of a text without their ends. A carriage return and a line feed are one end, and the
last line may have none. -/
def linesOf : List Char → List (List Char)
  | [] => []
  | '\r' :: '\n' :: cs => [] :: linesOf cs
  | c :: cs =>
    if c ∈ lineBreaks then [] :: linesOf cs
    else match linesOf cs with
      | [] => [[c]]
      | line :: lines => (c :: line) :: lines

/-- A text of one line, which has something on it and no line end. -/
def Unbroken (cs : List Char) : Prop := cs ≠ [] ∧ ∀ c ∈ cs, c ∉ lineBreaks

variable {c : Char} {cs line : List Char} {lines : List (List Char)}

theorem lineBreaks_not_printable : lineBreaks.all (!isPrintable ·) = true := by
  -- The table of ranges is long, and a list is looked through in fewer steps than an array.
  simp only [isPrintable, inRanges, ← Array.any_toList]
  decide +kernel

theorem Legible.notMem_lineBreaks (h : Legible cs) : ∀ c ∈ cs, c ∉ lineBreaks := by
  intro c hc hbreak
  simpa [h c hc] using List.all_eq_true.1 lineBreaks_not_printable c hbreak

theorem linesOf_cons (hc : c ∉ lineBreaks) : linesOf (c :: cs) =
    match linesOf cs with
      | [] => [[c]]
      | line :: lines => (c :: line) :: lines := by
  rw [linesOf, if_neg hc]
  rintro cs' rfl
  exact absurd (by decide) hc

theorem linesOf_feed (cs : List Char) : linesOf ('\n' :: cs) = [] :: linesOf cs := by
  rw [linesOf, if_pos (by decide)]
  simp

theorem linesOf_eq_nil_iff : linesOf cs = [] ↔ cs = [] := by
  fun_cases linesOf cs <;> simp_all

/-- The line up to a line feed is the first line. -/
theorem linesOf_append_feed (h : ∀ c ∈ line, c ∉ lineBreaks) (rest : List Char) :
    linesOf (line ++ '\n' :: rest) = line :: linesOf rest := by
  induction line with
  | nil => exact linesOf_feed rest
  | cons c line ih =>
    rw [List.forall_mem_cons] at h
    rw [List.cons_append, linesOf_cons h.1, ih h.2]

/-- The last line needs no end. -/
theorem linesOf_eq_singleton (h : Unbroken line) : linesOf line = [line] := by
  obtain ⟨hne, h⟩ := h
  induction line with
  | nil => exact absurd rfl hne
  | cons c line ih =>
    rw [List.forall_mem_cons] at h
    rw [linesOf_cons h.1]
    cases line with
    | nil => rfl
    | cons d line => rw [ih (List.cons_ne_nil d line) h.2]

/-- Lines with a line feed behind each of them. -/
theorem linesOf_flatMap (h : ∀ line ∈ lines, Unbroken line) :
    linesOf (lines.flatMap (· ++ ['\n'])) = lines := by
  induction lines with
  | nil => rfl
  | cons line lines ih =>
    rw [List.forall_mem_cons] at h
    rw [List.flatMap_cons, List.append_assoc, List.singleton_append, linesOf_append_feed h.1.2,
      ih h.2]

/-- Lines with line feeds between them. -/
theorem linesOf_intercalate (h : ∀ line ∈ lines, Unbroken line) :
    linesOf (['\n'].intercalate lines) = lines := by
  induction lines with
  | nil => rfl
  | cons line lines ih =>
    rw [List.forall_mem_cons] at h
    cases lines with
    | nil => simpa [List.intercalate] using linesOf_eq_singleton h.1
    | cons next lines =>
      rw [List.intercalate_cons_cons, List.append_assoc, List.singleton_append,
        linesOf_append_feed h.1.2, ih h.2]

/-! ### Listings -/

theorem forall₂_of_linesFrom {α ε : Type} {line : ℕ → α → Except ε String} {i : ℕ} {xs : List α}
    {ls : List String} (h : linesFrom line i xs = .ok ls) :
    List.Forall₂ (fun x l => line x.2 x.1 = .ok l) (xs.zipIdx i) ls := by
  induction xs generalizing i ls with
  | nil =>
    cases h
    exact .nil
  | cons x xs ih =>
    rw [linesFrom] at h
    obtain ⟨l, hl, h⟩ := exists_of_bind h
    obtain ⟨ls', hls, h⟩ := exists_of_bind h
    cases h
    exact .cons hl (ih hls)

/-- Whether the lines of a text are the lines of the tokens, one for each, in their order. -/
def IsListing (source : Source) (tokens : List Token) (text : String) : Prop :=
  List.Forall₂ (fun t line => t.1.line source t.2 = .ok (String.ofList line)) tokens.zipIdx
    (linesOf text.toList)

/-- Without tokens there is nothing to list. -/
theorem isListing_nil_iff {source : Source} {text : String} :
    IsListing source [] text ↔ text = "" := by
  rw [IsListing, List.zipIdx_nil, List.forall₂_nil_left_iff, linesOf_eq_nil_iff,
    String.toList_eq_nil_iff]

variable {source : Source} {tokens : List Token} {ls : List String} {l : Listing}
  {r : ListingRequest} {read : ReadFile} {tree : FileTree}

theorem Token.unbroken_of_line {i : ℕ} {t : Token} {s : String} (h : t.line source i = .ok s) :
    Unbroken s.toList := by
  refine ⟨?_, (legible_of_line h).notMem_lineBreaks⟩
  rw [line] at h
  obtain ⟨payload, -, h⟩ := exists_of_bind h
  obtain ⟨text, -, h⟩ := exists_of_bind h
  cases h
  simp

theorem unbroken_of_listTokens (h : listTokens source tokens = .ok ls) :
    ∀ line ∈ ls.map String.toList, Unbroken line := by
  have hlines : List.Forall₂ (fun s t => Unbroken s.toList ∧ t.1.line source t.2 = .ok s) ls
      tokens.zipIdx :=
    ((forall₂_of_linesFrom h).imp fun t s hs => ⟨Token.unbroken_of_line hs, hs⟩).flip
  exact List.forall_mem_map.2 ((List.forall₂_and_left _ _).1 hlines).1

/-- A text with the lines of tokens as its lines is their listing. -/
theorem isListing_of_linesOf {text : String} (h : listTokens source tokens = .ok ls)
    (htext : linesOf text.toList = ls.map String.toList) : IsListing source tokens text := by
  rw [IsListing, htext, List.forall₂_map_right_iff]
  simpa using forall₂_of_linesFrom h

theorem isListing_printed (h : listTokens source tokens = .ok l.lines) :
    IsListing source tokens l.printed := by
  refine isListing_of_linesOf h ?_
  rw [Listing.printed, String.toList_intercalate]
  exact linesOf_intercalate (unbroken_of_listTokens h)

theorem isListing_written (h : listTokens source tokens = .ok l.lines) :
    IsListing source tokens l.written := by
  have htext : l.written.toList = (l.lines.map String.toList).flatMap (· ++ ['\n']) := by
    simp [Listing.written, String.toList_join, List.flatMap_map]
  refine isListing_of_linesOf h ?_
  rw [htext]
  exact linesOf_flatMap (unbroken_of_listTokens h)

/-! ### Requests -/

/-- The conversion that a request asks for. -/
def ListingRequest.job (r : ListingRequest) (read : ReadFile) : Except CommandError Job := do
  let source ← readSource read r.source
  let profile ← filled .profile r.profile
  let lexemes ← readDump read (← filled .input r.dump)
  return { source, lexemes, options := .ofProfile profile }

theorem Job.outcome_of_tokens {j : Job} {events : List Event}
    (h : j.tokens = .ok (tokens, events)) : j.outcome = .tokens tokens := by
  unfold Job.tokens at h
  rw [Job.outcome]
  split at h <;> simp_all

/-- A request is listed by the lines of the tokens that its conversion answers. -/
theorem ListingRequest.exists_of_listing (h : r.listing read = .ok l) :
    ∃ job tokens, r.job read = .ok job ∧ job.outcome = .tokens tokens ∧
      listTokens job.source tokens = .ok l.lines := by
  rw [listing] at h
  obtain ⟨source, hsource, h⟩ := exists_of_bind h
  obtain ⟨profile, hprofile, h⟩ := exists_of_bind h
  obtain ⟨dump, hdump, h⟩ := exists_of_bind h
  obtain ⟨lexemes, hlexemes, h⟩ := exists_of_bind h
  obtain ⟨⟨tokens, events⟩, htokens, h⟩ := exists_of_bind h
  obtain ⟨lines, hlines, h⟩ := exists_of_bind h
  cases h
  refine ⟨_, tokens, ?_, Job.outcome_of_tokens htokens, ok_of_mapError hlines⟩
  rw [job, hsource, hprofile, hdump]
  change (readDump read dump >>= _) = _
  rw [hlexemes]
  rfl

/-- What is written to the error output. -/
def ListingRequest.log (r : ListingRequest) (l : Listing) : String :=
  if r.verbose then String.join (l.eventLines.map (· ++ "\n")) else ""

theorem ListingRequest.exists_of_answer {a : ListingAnswer} (h : r.answer tree = .ok a) :
    ∃ l, r.listing tree.read = .ok l ∧ a.stderr = r.log l ∧
      (r.output ≠ none → ∃ place, a.written = some (place, l.written)) := by
  rw [answer] at h
  obtain ⟨l, hl, h⟩ := exists_of_bind h
  refine ⟨l, hl, ?_⟩
  dsimp only at h
  split at h
  next hnone =>
    cases h
    exact ⟨rfl, fun hsome => absurd hnone hsome⟩
  next =>
    obtain ⟨path, -, h⟩ := exists_of_bind h
    obtain ⟨place, -, h⟩ := exists_of_bind h
    cases h
    exact ⟨rfl, fun _ => ⟨place, rfl⟩⟩

/-- Without an output, the listing is printed. -/
theorem ListingRequest.answer_without_output (h : r.listing tree.read = .ok l) :
    { r with output := none }.answer tree = .ok ⟨l.printed ++ "\n", r.log l, none⟩ := by
  rw [answer]
  change (r.listing tree.read >>= _) = _
  rw [h]
  rfl

/-- No line of a token has a line break. So if a request is answered, what is printed without an
output, up to the line end behind it, and what is written with one both have the lines of the tokens
as their lines; and where there is a token, what is written is what is printed. Without tokens the
file is empty, and the line end alone is printed. -/
theorem ListingRequest.answer_isListing :
    (∀ (source : Source) (i : ℕ) (t : Token) (line : String), t.line source i = .ok line →
      ∀ c ∈ line.toList, c ∉ lineBreaks) ∧
    ∀ (r : ListingRequest) (tree : FileTree) (a : ListingAnswer), r.answer tree = .ok a →
      ∃ job tokens printed written,
        r.job tree.read = .ok job ∧ job.outcome = .tokens tokens ∧
        IsListing job.source tokens printed ∧ IsListing job.source tokens written ∧
        { r with output := none }.answer tree = .ok ⟨printed ++ "\n", a.stderr, none⟩ ∧
        (∀ output b, { r with output := some output }.answer tree = .ok b →
          ∃ place, b.written = some (place, written)) ∧
        (tokens ≠ [] → written = printed ++ "\n") := by
  constructor
  · intro source i t line hline
    exact (Token.legible_of_line hline).notMem_lineBreaks
  · intro r tree a h
    obtain ⟨l, hl, hlog, -⟩ := exists_of_answer h
    obtain ⟨job, tokens, hjob, htokens, hlines⟩ := exists_of_listing hl
    refine ⟨job, tokens, l.printed, l.written, hjob, htokens, isListing_printed hlines,
      isListing_written hlines, hlog ▸ answer_without_output hl, ?_, ?_⟩
    · intro output b hb
      obtain ⟨l', hl', -, hwritten⟩ := exists_of_answer hb
      have hsame : l = l' := Except.ok.inj (hl.symm.trans hl')
      exact hsame ▸ hwritten (Option.some_ne_none _)
    · intro hne
      refine Listing.written_eq_printed fun hnil => hne ?_
      have hlength := length_linesFrom hlines
      rwa [hnil, List.length_nil, eq_comm, List.length_eq_zero_iff] at hlength

/-- A source with a line feed and a line separator in one lexeme, and its dump. -/
def separatedLines : FileTree := ⟨[(["a.rb"], "a\n\u2028b"),
  (["d.json"], r#"[[[1,0],"on_tstring_content","a\n\u2028",1],[[2,3],"on_ident","b",2]]"#)]⟩

/-- The request to write the listing of that source. -/
def listToFile : ListingRequest where
  source := ⟨"", ["a.rb"]⟩
  dump := some ⟨"", ["d.json"]⟩
  output := some (some ⟨"", ["out", "t.txt"]⟩)
  profile := some .current
  verbose := false

/-- The content of the file for that request. -/
def separatedListing : String :=
  "[0] tSTRING_CONTENT payload='a\\n\\u2028' range=(0, 5) text='a\\n\\u2028'\n" ++
  "[1] tIDENTIFIER payload='b' range=(5, 6) text='b'\n"

/-- Each lexeme has one line, which is the same in the file and in what is printed instead. -/
theorem ListingRequest.answer_isListing_separatedLines :
    (listToFile.answer separatedLines).toOption =
        some ⟨"Wrote 2 tokens to out/t.txt\n", "", some (⟨0, ["out", "t.txt"]⟩, separatedListing)⟩ ∧
      { listToFile with output := none }.answer separatedLines =
        .ok ⟨separatedListing, "", none⟩ := by
  have hanswer : (listToFile.answer separatedLines).toOption =
      some ⟨"Wrote 2 tokens to out/t.txt\n", "",
        some (⟨0, ["out", "t.txt"]⟩, separatedListing)⟩ := by decide +kernel
  refine ⟨hanswer, ?_⟩
  cases ha : listToFile.answer separatedLines with
  | error e =>
    rw [ha] at hanswer
    cases hanswer
  | ok a =>
    rw [ha] at hanswer
    cases hanswer
    obtain ⟨job, tokens, printed, written, -, -, -, hlines, hprinted, hwritten, hsame⟩ :=
      answer_isListing.2 _ _ _ ha
    obtain ⟨place, hplace⟩ := hwritten _ _ ha
    cases hplace
    have hne : tokens ≠ [] := by
      rintro rfl
      exact absurd (isListing_nil_iff.1 hlines) (by decide)
    rw [hsame hne, hprinted]

end RubyTokens
