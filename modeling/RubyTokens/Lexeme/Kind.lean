import RubyTokens.Text.Basic

/-! The kinds of lexeme that the lexer of Ruby reports, under the names of its events. A lexeme's
kind is a text, because a lexer of another release may report kinds that are not known here; the
known ones are the values of a type, and a name belongs to one kind at most. -/

namespace RubyTokens

inductive LexemeKind where
  | backref | backtick | character | comma | comment | constant | classVariable | dataEnd
  | embdoc | embdocBeg | embdocEnd | embexprBeg | embexprEnd | embvar | float | globalVariable
  | heredocBeg | heredocEnd | identifier | ignoredNewline | ignoredSpace | imaginary | integer
  | instanceVariable | keyword | label | labelEnd | lbrace | lbracket | lparen | newline
  | operator | period | qsymbolsBeg | qwordsBeg | rational | rbrace | rbracket | regexpBeg
  | regexpEnd | rparen | semicolon | space | symbeg | symbolsBeg | tlambda | tlambeg | tstringBeg
  | tstringContent | tstringEnd | wordsBeg | wordsSep
  deriving DecidableEq, Repr

namespace LexemeKind

/-- The name of the event that reports the kind. -/
def name : LexemeKind → String
  | backref => "on_backref"
  | backtick => "on_backtick"
  | character => "on_CHAR"
  | comma => "on_comma"
  | comment => "on_comment"
  | constant => "on_const"
  | classVariable => "on_cvar"
  | dataEnd => "on___end__"
  | embdoc => "on_embdoc"
  | embdocBeg => "on_embdoc_beg"
  | embdocEnd => "on_embdoc_end"
  | embexprBeg => "on_embexpr_beg"
  | embexprEnd => "on_embexpr_end"
  | embvar => "on_embvar"
  | float => "on_float"
  | globalVariable => "on_gvar"
  | heredocBeg => "on_heredoc_beg"
  | heredocEnd => "on_heredoc_end"
  | identifier => "on_ident"
  | ignoredNewline => "on_ignored_nl"
  | ignoredSpace => "on_ignored_sp"
  | imaginary => "on_imaginary"
  | integer => "on_int"
  | instanceVariable => "on_ivar"
  | keyword => "on_kw"
  | label => "on_label"
  | labelEnd => "on_label_end"
  | lbrace => "on_lbrace"
  | lbracket => "on_lbracket"
  | lparen => "on_lparen"
  | newline => "on_nl"
  | operator => "on_op"
  | period => "on_period"
  | qsymbolsBeg => "on_qsymbols_beg"
  | qwordsBeg => "on_qwords_beg"
  | rational => "on_rational"
  | rbrace => "on_rbrace"
  | rbracket => "on_rbracket"
  | regexpBeg => "on_regexp_beg"
  | regexpEnd => "on_regexp_end"
  | rparen => "on_rparen"
  | semicolon => "on_semicolon"
  | space => "on_sp"
  | symbeg => "on_symbeg"
  | symbolsBeg => "on_symbols_beg"
  | tlambda => "on_tlambda"
  | tlambeg => "on_tlambeg"
  | tstringBeg => "on_tstring_beg"
  | tstringContent => "on_tstring_content"
  | tstringEnd => "on_tstring_end"
  | wordsBeg => "on_words_beg"
  | wordsSep => "on_words_sep"

def all : List LexemeKind := [
  backref, backtick, character, comma, comment, constant, classVariable, dataEnd, embdoc,
  embdocBeg, embdocEnd, embexprBeg, embexprEnd, embvar, float, globalVariable, heredocBeg,
  heredocEnd, identifier, ignoredNewline, ignoredSpace, imaginary, integer, instanceVariable,
  keyword, label, labelEnd, lbrace, lbracket, lparen, newline, operator, period, qsymbolsBeg,
  qwordsBeg, rational, rbrace, rbracket, regexpBeg, regexpEnd, rparen, semicolon, space, symbeg,
  symbolsBeg, tlambda, tlambeg, tstringBeg, tstringContent, tstringEnd, wordsBeg, wordsSep]

def ofName? (name : String) : Option LexemeKind := all.find? (·.name = name)

theorem mem_all (k : LexemeKind) : k ∈ all := by cases k <;> decide

theorem ofName?_name (k : LexemeKind) : ofName? k.name = some k := by cases k <;> rfl

theorem name_of_ofName? {s : String} {k : LexemeKind} (h : ofName? s = some k) : k.name = s := by
  simpa using List.find?_some h

theorem ofName?_eq_some_iff {s : String} {k : LexemeKind} : ofName? s = some k ↔ k.name = s :=
  ⟨name_of_ofName?, fun h => h ▸ ofName?_name k⟩

/-- The kind with a name that need not be a string. -/
def ofText? (name : Text) : Option LexemeKind := name.string?.bind ofName?

theorem ofText?_eq_some_iff {t : Text} {k : LexemeKind} : ofText? t = some k ↔ t = k.name := by
  simp [ofText?, Option.bind_eq_some_iff, Text.string?_eq_some_iff, ofName?_eq_some_iff]

@[simp] theorem ofText?_name (k : LexemeKind) : ofText? k.name = some k :=
  ofText?_eq_some_iff.2 rfl

theorem name_inj {j k : LexemeKind} (h : j.name = k.name) : j = k := by
  have := ofName?_name j
  rw [h, ofName?_name k] at this
  exact (Option.some.inj this).symm

/-- The kinds of number literals. -/
def isNumeric : LexemeKind → Bool
  | integer | float | rational | imaginary => true
  | _ => false

end LexemeKind

end RubyTokens
