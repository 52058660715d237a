/-! The kinds of token that a Ruby grammar consumes, under the grammar's own names. -/

namespace RubyTokens

inductive TokenKind where
  | identifier | methodName | constant | instanceVariable | classVariable | globalVariable
  | nthRef | backRef | label | labelEnd | integer | float | rational | imaginary | unaryNum
  | character | string | symbol | stringBeg | stringContent | stringEnd | stringCodeBeg
  | stringCodeEnd | stringVariable | xstringBeg | symbeg | regexpBeg | regexpOpt | wordsBeg
  | qwordsBeg | symbolsBeg | qsymbolsBeg | space | newline | comment | semi | comma | dot
  | lcurly | lbrace | lbraceArg | rcurly | lbrack | lbrack2 | rbrack | lparen | lparenArg
  | lparen2 | rparen | lambda | lambeg | tilde | eh | colon | colon2 | colon3 | bang | neq
  | nmatch | dstar | star | divide | anddot | andop | amper | amper2 | percent | caret | plus
  | minus | uminus | less | lshft | leq | cmp | eql | eq | eqq | assoc | matchOp | greater | geq
  | rshft | pipe | orop | aref | aset | opAsgn | dot2 | dot3 | bdot2 | bdot3 | kwLine | kwFile
  | kwEncoding | kwUpperBegin | kwUpperEnd | kwAlias | kwAnd | kwBegin | kwBreak | kwCase
  | kwClass | kwDef | kwDefined | kwDo | kwElse | kwElsif | kwEnd | kwEnsure | kwFalse | kwFor
  | kwIn | kwModule | kwNext | kwNil | kwNot | kwOr | kwRedo | kwRetry | kwReturn | kwSelf
  | kwSuper | kwThen | kwTrue | kwUndef | kwWhen | kwYield | kwIf | kwIfMod | kwUnless
  | kwUnlessMod | kwWhile | kwWhileMod | kwUntil | kwUntilMod | kwRescue | kwRescueMod
  deriving DecidableEq, Repr

namespace TokenKind

/-- The name of the kind in the grammar. -/
def name : TokenKind → String
  | identifier => "tIDENTIFIER"
  | methodName => "tFID"
  | constant => "tCONSTANT"
  | instanceVariable => "tIVAR"
  | classVariable => "tCVAR"
  | globalVariable => "tGVAR"
  | nthRef => "tNTH_REF"
  | backRef => "tBACK_REF"
  | label => "tLABEL"
  | labelEnd => "tLABEL_END"
  | integer => "tINTEGER"
  | float => "tFLOAT"
  | rational => "tRATIONAL"
  | imaginary => "tIMAGINARY"
  | unaryNum => "tUNARY_NUM"
  | character => "tCHARACTER"
  | string => "tSTRING"
  | symbol => "tSYMBOL"
  | stringBeg => "tSTRING_BEG"
  | stringContent => "tSTRING_CONTENT"
  | stringEnd => "tSTRING_END"
  | stringCodeBeg => "tSTRING_DBEG"
  | stringCodeEnd => "tSTRING_DEND"
  | stringVariable => "tSTRING_DVAR"
  | xstringBeg => "tXSTRING_BEG"
  | symbeg => "tSYMBEG"
  | regexpBeg => "tREGEXP_BEG"
  | regexpOpt => "tREGEXP_OPT"
  | wordsBeg => "tWORDS_BEG"
  | qwordsBeg => "tQWORDS_BEG"
  | symbolsBeg => "tSYMBOLS_BEG"
  | qsymbolsBeg => "tQSYMBOLS_BEG"
  | space => "tSPACE"
  | newline => "tNL"
  | comment => "tCOMMENT"
  | semi => "tSEMI"
  | comma => "tCOMMA"
  | dot => "tDOT"
  | lcurly => "tLCURLY"
  | lbrace => "tLBRACE"
  | lbraceArg => "tLBRACE_ARG"
  | rcurly => "tRCURLY"
  | lbrack => "tLBRACK"
  | lbrack2 => "tLBRACK2"
  | rbrack => "tRBRACK"
  | lparen => "tLPAREN"
  | lparenArg => "tLPAREN_ARG"
  | lparen2 => "tLPAREN2"
  | rparen => "tRPAREN"
  | lambda => "tLAMBDA"
  | lambeg => "tLAMBEG"
  | tilde => "tTILDE"
  | eh => "tEH"
  | colon => "tCOLON"
  | colon2 => "tCOLON2"
  | colon3 => "tCOLON3"
  | bang => "tBANG"
  | neq => "tNEQ"
  | nmatch => "tNMATCH"
  | dstar => "tDSTAR"
  | star => "tSTAR"
  | divide => "tDIVIDE"
  | anddot => "tANDDOT"
  | andop => "tANDOP"
  | amper => "tAMPER"
  | amper2 => "tAMPER2"
  | percent => "tPERCENT"
  | caret => "tCARET"
  | plus => "tPLUS"
  | minus => "tMINUS"
  | uminus => "tUMINUS"
  | less => "tLT"
  | lshft => "tLSHFT"
  | leq => "tLEQ"
  | cmp => "tCMP"
  | eql => "tEQL"
  | eq => "tEQ"
  | eqq => "tEQQ"
  | assoc => "tASSOC"
  | matchOp => "tMATCH"
  | greater => "tGT"
  | geq => "tGEQ"
  | rshft => "tRSHFT"
  | pipe => "tPIPE"
  | orop => "tOROP"
  | aref => "tAREF"
  | aset => "tASET"
  | opAsgn => "tOP_ASGN"
  | dot2 => "tDOT2"
  | dot3 => "tDOT3"
  | bdot2 => "tBDOT2"
  | bdot3 => "tBDOT3"
  | kwLine => "k__LINE__"
  | kwFile => "k__FILE__"
  | kwEncoding => "k__ENCODING__"
  | kwUpperBegin => "klBEGIN"
  | kwUpperEnd => "klEND"
  | kwAlias => "kALIAS"
  | kwAnd => "kAND"
  | kwBegin => "kBEGIN"
  | kwBreak => "kBREAK"
  | kwCase => "kCASE"
  | kwClass => "kCLASS"
  | kwDef => "kDEF"
  | kwDefined => "kDEFINED"
  | kwDo => "kDO"
  | kwElse => "kELSE"
  | kwElsif => "kELSIF"
  | kwEnd => "kEND"
  | kwEnsure => "kENSURE"
  | kwFalse => "kFALSE"
  | kwFor => "kFOR"
  | kwIn => "kIN"
  | kwModule => "kMODULE"
  | kwNext => "kNEXT"
  | kwNil => "kNIL"
  | kwNot => "kNOT"
  | kwOr => "kOR"
  | kwRedo => "kREDO"
  | kwRetry => "kRETRY"
  | kwReturn => "kRETURN"
  | kwSelf => "kSELF"
  | kwSuper => "kSUPER"
  | kwThen => "kTHEN"
  | kwTrue => "kTRUE"
  | kwUndef => "kUNDEF"
  | kwWhen => "kWHEN"
  | kwYield => "kYIELD"
  | kwIf => "kIF"
  | kwIfMod => "kIF_MOD"
  | kwUnless => "kUNLESS"
  | kwUnlessMod => "kUNLESS_MOD"
  | kwWhile => "kWHILE"
  | kwWhileMod => "kWHILE_MOD"
  | kwUntil => "kUNTIL"
  | kwUntilMod => "kUNTIL_MOD"
  | kwRescue => "kRESCUE"
  | kwRescueMod => "kRESCUE_MOD"

def all : List TokenKind := [
  identifier, methodName, constant, instanceVariable, classVariable, globalVariable, nthRef,
  backRef, label, labelEnd, integer, float, rational, imaginary, unaryNum, character, string,
  symbol, stringBeg, stringContent, stringEnd, stringCodeBeg, stringCodeEnd, stringVariable,
  xstringBeg, symbeg, regexpBeg, regexpOpt, wordsBeg, qwordsBeg, symbolsBeg, qsymbolsBeg, space,
  newline, comment, semi, comma, dot, lcurly, lbrace, lbraceArg, rcurly, lbrack, lbrack2, rbrack,
  lparen, lparenArg, lparen2, rparen, lambda, lambeg, tilde, eh, colon, colon2, colon3, bang, neq,
  nmatch, dstar, star, divide, anddot, andop, amper, amper2, percent, caret, plus, minus, uminus,
  less, lshft, leq, cmp, eql, eq, eqq, assoc, matchOp, greater, geq, rshft, pipe, orop, aref,
  aset, opAsgn, dot2, dot3, bdot2, bdot3, kwLine, kwFile, kwEncoding, kwUpperBegin, kwUpperEnd,
  kwAlias, kwAnd, kwBegin, kwBreak, kwCase, kwClass, kwDef, kwDefined, kwDo, kwElse, kwElsif,
  kwEnd, kwEnsure, kwFalse, kwFor, kwIn, kwModule, kwNext, kwNil, kwNot, kwOr, kwRedo, kwRetry,
  kwReturn, kwSelf, kwSuper, kwThen, kwTrue, kwUndef, kwWhen, kwYield, kwIf, kwIfMod, kwUnless,
  kwUnlessMod, kwWhile, kwWhileMod, kwUntil, kwUntilMod, kwRescue, kwRescueMod]

theorem mem_all (k : TokenKind) : k ∈ all := by cases k <;> decide

end TokenKind

end RubyTokens
