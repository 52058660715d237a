import Mathlib.Data.List.TakeWhile
import RubyTokens.Proofs.Lexeme.States

/-! Texts of states as sets of names. Each part of a text may name a member, which is the empty
state or a flag, with space around the name and one mark in front of it. A text is read if every
part names a member, and what is read is the union of these members. So only the set of the parts
matters, and the text of what was read is read the same again. -/

namespace RubyTokens

/-! ### Space at the ends -/

section Trimming

variable {p : Char → Bool} {lead trail : List Char}

theorem trimBy_append (hlead : ∀ c ∈ lead, p c = true) (htrail : ∀ c ∈ trail, p c = true)
    (cs : List Char) : trimBy p (lead ++ (cs ++ trail)) = trimBy p cs := by
  rw [trimBy, List.dropWhile_append_of_pos hlead, trimBy, List.dropWhile_append]
  split_ifs with hcs
  · -- Nothing is left of the text in the middle, so the space behind it goes too.
    have hnone : trail.dropWhile p = [] := List.dropWhile_eq_nil_iff.2 htrail
    rw [hnone, List.isEmpty_iff.1 hcs]
  · rw [List.reverse_append, List.dropWhile_append_of_pos (by simpa using htrail)]

theorem exists_of_trimBy (p : Char → Bool) (cs : List Char) :
    ∃ lead trail, (∀ c ∈ lead, p c = true) ∧ (∀ c ∈ trail, p c = true) ∧
      cs = lead ++ (trimBy p cs ++ trail) := by
  refine ⟨cs.takeWhile p, ((cs.dropWhile p).reverse.takeWhile p).reverse,
    fun c => List.mem_takeWhile_imp, fun c hc => List.mem_takeWhile_imp (List.mem_reverse.1 hc), ?_⟩
  rw [trimBy, ← List.reverse_append, List.takeWhile_append_dropWhile, List.reverse_reverse,
    List.takeWhile_append_dropWhile]

end Trimming

/-- A text that shows no replacement character is the string of its characters. -/
theorem Text.eq_ofList_chars {t : Text} (h : CodePoint.replacement ∉ t.chars) :
    t = String.ofList t.chars := by
  have hpoints : ∀ p ∈ t.points, CodePoint.char p.toChar = p := by
    intro p hp
    have hne : p.toChar ≠ CodePoint.replacement := fun hr => h (hr ▸ List.mem_map_of_mem hp)
    exact (eq_char_of_toChar hne rfl).symm
  refine congrArg Text.mk ?_
  rw [String.toList_ofList, chars, List.map_map]
  exact ((List.map_congr_left hpoints).trans (List.map_id _)).symm

namespace State

variable {part : Text} {s : State}

/-! ### Members -/

/-- What has a name: the empty state, or a flag. -/
inductive Member where
  | empty
  | flag (i : Fin flagCount)

namespace Member

def name : Member → String
  | empty => "NONE"
  | flag i => flagName i

/-- The state with the bits of the member. -/
def state : Member → State
  | empty => none
  | flag i => ofFlag i

theorem forall_iff {P : Member → Prop} : (∀ m, P m) ↔ P empty ∧ ∀ i, P (flag i) :=
  ⟨fun h => ⟨h empty, fun i => h (flag i)⟩, fun h m => m.casesOn h.1 h.2⟩

theorem ofName?_name : ∀ m : Member, ofName? m.name = some m.state :=
  forall_iff.2 ⟨rfl, by decide⟩

end Member

theorem ofName?_eq_some_iff {name : String} :
    ofName? name = some s ↔ ∃ m : Member, m.name = name ∧ m.state = s := by
  constructor
  · intro h
    unfold ofName? at h
    split_ifs at h with hnone
    · exact ⟨.empty, hnone.symm, Option.some.inj h⟩
    · obtain ⟨i, hi, rfl⟩ := Option.map_eq_some_iff.1 h
      obtain ⟨hlt, hname, -⟩ := List.findIdx?_eq_some_iff_getElem.1 hi
      exact ⟨.flag ⟨i, hlt⟩, of_decide_eq_true hname, rfl⟩
  · rintro ⟨m, rfl, rfl⟩
    exact m.ofName?_name

/-! ### Parts -/

/-- The mark that may stand in front of a name. -/
def mark (marked : Bool) : List Char := if marked then "EXPR_".toList else []

/-- A member as a part names it: behind one mark at most, with space around both. -/
structure Mention where
  lead : List Char
  marked : Bool
  member : Member
  trail : List Char
  lead_space : ∀ c ∈ lead, isSpace c = true
  trail_space : ∀ c ∈ trail, isSpace c = true

def Mention.chars (n : Mention) : List Char :=
  n.lead ++ (mark n.marked ++ n.member.name.toList ++ n.trail)

/-- Whether the part is a mention of the member. -/
def Names (part : Text) (m : Member) : Prop :=
  ∃ n : Mention, n.member = m ∧ part = String.ofList n.chars

theorem exists_of_nameOfPart (part : Text) :
    ∃ marked, trimBy isSpace part.chars = mark marked ++ (nameOfPart part).toList := by
  simp only [nameOfPart]
  split
  next rest h => exact ⟨true, by simp [mark, h]⟩
  next => exact ⟨false, by simp [mark]⟩

/-- The space around a part has no say in its name. -/
theorem nameOfPart_congr {part' : Text}
    (h : trimBy isSpace part.chars = trimBy isSpace part'.chars) :
    nameOfPart part = nameOfPart part' := by
  rw [nameOfPart, nameOfPart, h]

/-- No name begins with a mark, or begins or ends with space. -/
theorem nameOfPart_name (marked : Bool) : ∀ m : Member,
    nameOfPart (String.ofList (mark marked ++ m.name.toList)) = m.name := by
  revert marked
  simp only [Member.forall_iff]
  decide

theorem replacement_notMem_name : ∀ m : Member, CodePoint.replacement ∉ m.name.toList :=
  Member.forall_iff.2 ⟨by decide, by decide⟩

/-- A mention has no replacement character. -/
theorem Mention.replacement_notMem (n : Mention) : CodePoint.replacement ∉ n.chars := by
  have hspace : ¬ isSpace CodePoint.replacement = true := by decide
  have hmark : CodePoint.replacement ∉ mark n.marked := by cases n.marked <;> decide
  simp only [chars, List.mem_append, not_or]
  exact ⟨mt (n.lead_space _) hspace, ⟨hmark, replacement_notMem_name _⟩,
    mt (n.trail_space _) hspace⟩

theorem names_iff {m : Member} : Names part m ↔ nameOfPart part = m.name := by
  constructor
  · rintro ⟨n, rfl, rfl⟩
    rw [← nameOfPart_name n.marked]
    refine nameOfPart_congr ?_
    rw [Text.chars_ofString, Text.chars_ofString, String.toList_ofList, String.toList_ofList,
      Mention.chars, trimBy_append n.lead_space n.trail_space]
  · intro h
    obtain ⟨lead, trail, hlead, htrail, hchars⟩ := exists_of_trimBy isSpace part.chars
    obtain ⟨marked, hmarked⟩ := exists_of_nameOfPart part
    let n : Mention := ⟨lead, marked, m, trail, hlead, htrail⟩
    have hn : part.chars = n.chars := by rw [hchars, hmarked, h]; rfl
    refine ⟨n, rfl, ?_⟩
    rw [← hn]
    exact Text.eq_ofList_chars (hn ▸ n.replacement_notMem)

theorem ofPart?_of_names {m : Member} (h : Names part m) : ofPart? part = some m.state := by
  rw [ofPart?, names_iff.1 h, Member.ofName?_name]

theorem exists_names_iff : (∃ m, Names part m) ↔ ∃ s, ofPart? part = some s := by
  constructor
  · rintro ⟨m, hm⟩
    exact ⟨m.state, ofPart?_of_names hm⟩
  · rintro ⟨s, hs⟩
    obtain ⟨m, hm, -⟩ := ofName?_eq_some_iff.1 hs
    exact ⟨m, names_iff.2 hm.symm⟩

/-! ### Unions of what is named -/

variable {ps : List Text} {t : State}

theorem ofParts_cons_of_names {m : Member} (h : Names part m) :
    ofParts (part :: ps) s = ofParts ps (s.union m.state) := by
  have hname : ofName? (nameOfPart part) = some m.state := ofPart?_of_names h
  rw [ofParts, hname]

theorem ofParts_cons_of_not_names (h : ¬ ∃ m, Names part m) :
    ofParts (part :: ps) s = .error part := by
  have hname : ofName? (nameOfPart part) = .none :=
    Option.eq_none_iff_forall_ne_some.2 fun u hu => h (exists_names_iff.2 ⟨u, hu⟩)
  rw [ofParts, hname]

theorem exists_ofParts_iff :
    (∃ t, ofParts ps s = .ok t) ↔ ∀ part ∈ ps, ∃ m, Names part m := by
  induction ps generalizing s with
  | nil => simp [ofParts]
  | cons part ps ih =>
    rw [List.forall_mem_cons]
    by_cases h : ∃ m, Names part m
    · obtain ⟨m, hm⟩ := h
      rw [ofParts_cons_of_names hm, ih]
      exact (and_iff_right ⟨m, hm⟩).symm
    · simp [ofParts_cons_of_not_names h, h]

/-- The bits that are read are those of the members that are named. -/
theorem hasFlag_of_ofParts (h : ofParts ps s = .ok t) (i : ℕ) :
    t.hasFlag i = true ↔
      s.hasFlag i = true ∨ ∃ part ∈ ps, ∃ m, Names part m ∧ m.state.hasFlag i = true := by
  -- The state that the union begins with has the members of the parts before these.
  induction ps generalizing s with
  | nil =>
    cases h
    simp
  | cons part ps ih =>
    obtain ⟨m, hm⟩ := exists_ofParts_iff.1 ⟨t, h⟩ part List.mem_cons_self
    rw [ofParts_cons_of_names hm] at h
    have hpart : (∃ m', Names part m' ∧ m'.state.hasFlag i = true) ↔ m.state.hasFlag i = true := by
      constructor
      · rintro ⟨m', hm', hi⟩
        rwa [Option.some.inj ((ofPart?_of_names hm).symm.trans (ofPart?_of_names hm'))]
      · exact fun hi => ⟨m, hm, hi⟩
    rw [ih h, hasFlag_union, List.exists_mem_cons_iff, hpart, Bool.or_eq_true, or_assoc]

/-! ### Texts -/

/-- The parts of a text, between its bars. -/
def parts (text : Text) : List Text := (text.points.splitOn (.char '|')).map Text.mk

theorem parse_eq_ofParts (text : Text) : parse text = ofParts (parts text) none := by
  rw [parse, pieces_eq_splitOn, parts]

theorem exists_parse_iff {text : Text} :
    (∃ s, parse text = .ok s) ↔ ∀ part ∈ parts text, ∃ m, Names part m := by
  rw [parse_eq_ofParts, exists_ofParts_iff]

theorem hasFlag_of_parse {text : Text} (h : parse text = .ok s) (i : ℕ) :
    s.hasFlag i = true ↔ ∃ part ∈ parts text, ∃ m, Names part m ∧ m.state.hasFlag i = true := by
  have hnone : none.hasFlag i = false := Nat.zero_testBit i
  rw [parse_eq_ofParts] at h
  simp [hasFlag_of_ofParts h, hnone]

theorem parse_eq_ok_iff {text : Text} : parse text = .ok s ↔
    (∀ part ∈ parts text, ∃ m, Names part m) ∧ ∀ i, s.hasFlag i = true ↔
      ∃ part ∈ parts text, ∃ m, Names part m ∧ m.state.hasFlag i = true := by
  constructor
  · exact fun h => ⟨exists_parse_iff.1 ⟨s, h⟩, hasFlag_of_parse h⟩
  · rintro ⟨hnamed, hflags⟩
    obtain ⟨t, ht⟩ := exists_parse_iff.2 hnamed
    have hst : s = t := eq_of_hasFlag fun i => by
      rw [Bool.eq_iff_iff, hflags, hasFlag_of_parse ht]
    rw [hst, ht]

/-- Texts with the same parts, in any order and number, are read alike. -/
theorem parse_congr {text text' : Text} (h : ∀ part, part ∈ parts text' ↔ part ∈ parts text) :
    parse text' = .ok s ↔ parse text = .ok s := by
  simp only [parse_eq_ok_iff, h]

/-- A text is read if and only if every part names a member, and then as the union of the members;
the order of the parts and their repetition do not matter. The text of what is read is read as the
same state, and the text of any state with a flag as that state less the bits that have no name. -/
theorem parse_names_members (text : Text) :
    ((∃ s, parse text = .ok s) ↔ ∀ part ∈ parts text, ∃ m, Names part m) ∧
    (∀ s, parse text = .ok s →
      (∀ i, s.hasFlag i = true ↔
        ∃ part ∈ parts text, ∃ m, Names part m ∧ m.state.hasFlag i = true) ∧
      parse s.text = .ok s) ∧
    (∀ text', (∀ part, part ∈ parts text' ↔ part ∈ parts text) →
      ∀ s, parse text' = .ok s ↔ parse text = .ok s) ∧
    ∀ n : ℕ, n % 8192 ≠ 0 → parse (ofInt n).text = .ok ⟨n % 8192⟩ := by
  refine ⟨exists_parse_iff, fun s h => ⟨hasFlag_of_parse h, ?_⟩, fun text' h s => parse_congr h,
    fun n hn => ?_⟩
  · exact parse_text_eq_ok_iff.2 (bits_lt_of_parse h)
  · rw [ofInt_natCast]
    exact parse_text (.inr fun hlow => hn (congrArg bits hlow))

/-- A repeated part, and one with space and a mark; and a state with a bit that has no name. -/
theorem parse_names_members_repeatedEnd :
    (∀ part ∈ parts " EXPR_LABEL\t|END", ∃ m, Names part m) ∧
    parse "END| EXPR_LABEL\t|END" = .ok (ended.union label) ∧
    parse "END|LABEL" = .ok (ended.union label) ∧
    8194 % 8192 ≠ 0 ∧ parse (ofInt 8194).text = .ok ended := by
  obtain ⟨hnamed, hread, hparts, hlow⟩ := parse_names_members " EXPR_LABEL\t|END"
  have hparse : parse " EXPR_LABEL\t|END" = .ok (ended.union label) := by decide
  have hsame : ∀ part, part ∈ parts "END| EXPR_LABEL\t|END" ↔
      part ∈ parts " EXPR_LABEL\t|END" := by
    have honce : parts " EXPR_LABEL\t|END" =
        [Text.ofString " EXPR_LABEL\t", Text.ofString "END"] := by decide
    have hrepeated : parts "END| EXPR_LABEL\t|END" =
        [Text.ofString "END", Text.ofString " EXPR_LABEL\t", Text.ofString "END"] := by decide
    intro part
    rw [honce, hrepeated]
    simp only [List.mem_cons, List.not_mem_nil, or_false]
    tauto
  have hn : 8194 % 8192 ≠ 0 := by decide
  have htext : (ended.union label).text = "END|LABEL" := by decide
  exact ⟨hnamed.1 ⟨_, hparse⟩, (hparts _ hsame _).2 hparse, htext ▸ (hread _ hparse).2, hn,
    hlow _ hn⟩

end State

end RubyTokens
