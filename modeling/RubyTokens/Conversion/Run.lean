import RubyTokens.Text.Source
import RubyTokens.Conversion.Yield

/-! The conversion of all lexemes of a source. A run goes step by step: the lexeme under the cursor
yields tokens and a move, the state of the lexer after the last lexeme of the step is kept for the
next one, and the cursor advances. The steps made so far are part of the run's state, so that what
was read, and in which order, can be seen in the end.

The cursor can be sent round and round: if a fold takes in the line end behind a heredoc's opener, a
later opener may jump to itself, and an opener within the second heredoc of a line is sent to the
beginning of the body it stands in. So a run is given a number of steps, and has a third ending
besides success and failure. More steps never change an ending that a run has come to, which is
`Progress.run_add`. -/

namespace RubyTokens

/-- Whether heredocs change the order of reading: lexemes in the order of the lexer are put in the
order of the grammar, or they are in that order already. -/
inductive HeredocOrder where
  | lexer | grammar
  deriving DecidableEq, Repr

/-- Follows a move. -/
def Cursor.apply (order : HeredocOrder) (c : Cursor) : Move → Cursor.Moved
  | .onward => { cursor := c }
  | .consume count => c.consume count
  | .consumeThrough index => c.consumeThrough index
  | .finish => c.finish
  | .openHeredoc => if order = .lexer then c.openHeredoc else { cursor := c }
  | .closeHeredoc => if order = .lexer then c.closeHeredoc else { cursor := c }
  | .endLine => if order = .lexer then c.endLine else { cursor := c }

/-- What a run reports about its course. -/
inductive Event where
  | moved (note : Cursor.Note)
  | keptInPlace (line column : Int)
  | finished (name : String) (tokens : Nat)
  deriving DecidableEq, Repr

def Event.message : Event → String
  | .moved note => note.message
  | .keptInPlace line column =>
    "heredoc opener at " ++ decimal line ++ ":" ++ decimal column ++ " has no line end after it"
  | .finished name n => "translated " ++ name ++ " into " ++ decimal n ++ " tokens"

/-- One step of a run: the lexemes from `index` to `last` were read, the lexer being in `state`
before them. -/
structure Step where
  index : Int
  last : Int
  state : State
  tokens : List Token
  events : List Event
  deriving DecidableEq

/-- What does not change during a run. -/
structure Setting where
  lines : LineTable
  options : Options
  order : HeredocOrder

/-- A run under way: its cursor, the lexer's state before the lexeme there, and the steps made, the
latest first. -/
structure Progress where
  cursor : Cursor
  state : State := .beg
  history : List Step := []
  deriving DecidableEq

inductive Ending where
  | finished
  | failed (failure : Failure)
  | unfinished
  deriving DecidableEq, Repr

namespace Progress

def start (lexemes : List Lexeme) : Progress := { cursor := .start lexemes }

/-- The events of a step that asked for a move. -/
def eventsOf (l : Lexeme) (move : Move) (m : Cursor.Moved) : List Event :=
  if move = .openHeredoc ∧ m.cursor.pending = none then [.keptInPlace l.line l.column]
  else m.notes.map .moved

/-- Ends a step at a lexeme with what it yielded. -/
def follow (s : Setting) (p : Progress) (l : Lexeme) (y : Yield) : Except Failure Progress :=
  let moved := p.cursor.apply s.order y.move
  match moved.fault, moved.cursor.lastConsumed with
  | some fault, _ => .error (.cursor fault)
  | none, .error fault => .error (.cursor fault)
  | none, .ok last =>
    let made : Step := {
      index := p.cursor.index
      last := moved.cursor.last
      state := p.state
      tokens := y.tokens
      events := eventsOf l y.move moved }
    .ok ⟨moved.cursor.advance, last.stateAfter, made :: p.history⟩

/-- Converts the lexeme under the cursor. -/
def step (s : Setting) (p : Progress) : Except Failure Progress :=
  match p.cursor.current with
  | .error fault => .error (.cursor fault)
  | .ok lexeme =>
    match Yield.ofLexeme s.lines s.options p.state p.cursor lexeme with
    | .error failure => .error failure
    | .ok yield => p.follow s lexeme yield

/-- Makes steps until no lexeme is left, one fails, or `fuel` steps are made. -/
def run (s : Setting) : (fuel : Nat) → Progress → Progress × Ending
  | 0, p => (p, if p.cursor.isExhausted then .finished else .unfinished)
  | fuel + 1, p =>
    if p.cursor.isExhausted then (p, .finished)
    else
      match p.step s with
      | .ok next => run s fuel next
      | .error failure => (p, .failed failure)

/-- The tokens of all steps. -/
def tokens (p : Progress) : List Token := p.history.reverse.flatMap Step.tokens

def events (p : Progress) : List Event := p.history.reverse.flatMap Step.events

theorem run_of_isExhausted {s : Setting} {p : Progress} (h : p.cursor.isExhausted = true)
    (fuel : Nat) : run s fuel p = (p, .finished) := by
  cases fuel <;> simp [run, h]

theorem run_succ_of_step {s : Setting} {p next : Progress} (h : p.cursor.isExhausted = false)
    (hs : p.step s = .ok next) (fuel : Nat) : run s (fuel + 1) p = run s fuel next := by
  simp [run, h, hs]

theorem run_succ_of_failure {s : Setting} {p : Progress} {failure : Failure}
    (h : p.cursor.isExhausted = false) (hs : p.step s = .error failure) (fuel : Nat) :
    run s (fuel + 1) p = (p, .failed failure) := by
  simp [run, h, hs]

/-- A run that came to an end comes to the same end with more fuel. -/
theorem run_add {s : Setting} {fuel : Nat} {p : Progress} (h : (run s fuel p).2 ≠ .unfinished)
    (extra : Nat) : run s (fuel + extra) p = run s fuel p := by
  induction fuel generalizing p with
  | zero =>
    by_cases he : p.cursor.isExhausted
    · rw [run_of_isExhausted he, run_of_isExhausted he]
    · simp [run, he] at h
  | succ fuel ih =>
    rw [Nat.succ_add]
    by_cases he : p.cursor.isExhausted
    · rw [run_of_isExhausted he, run_of_isExhausted he]
    · have he : p.cursor.isExhausted = false := by simpa using he
      cases hs : p.step s with
      | error failure => rw [run_succ_of_failure he hs, run_succ_of_failure he hs]
      | ok next =>
        rw [run_succ_of_step he hs] at h ⊢
        rw [run_succ_of_step he hs, ih h]

end Progress

/-- What a conversion answers. -/
inductive Outcome where
  | tokens (tokens : List Token)
  | failed (failure : Failure)
  | unfinished
  deriving DecidableEq

/-- An outcome with what was reported on the way to it. -/
structure Report where
  outcome : Outcome
  events : List Event

/-- The number of steps that a run over `n` lexemes is given. -/
def stepLimit (n : Nat) : Nat := (n + 1) * (n + 1) * (n + 1)

/-- A conversion to be done. -/
structure Job where
  source : Source
  lexemes : List Lexeme
  options : Options := {}
  order : HeredocOrder := .lexer

namespace Job

def setting (j : Job) : Setting := ⟨.ofSource j.source, j.options, j.order⟩

/-- The whole run. -/
def run (j : Job) : Progress × Ending :=
  Progress.run j.setting (stepLimit j.lexemes.length) (.start j.lexemes)

def report (j : Job) : Report :=
  match j.run with
  | (p, .finished) =>
    ⟨.tokens p.tokens, p.events ++ [.finished j.source.name p.tokens.length]⟩
  | (p, .failed failure) => ⟨.failed failure, p.events⟩
  | (p, .unfinished) => ⟨.unfinished, p.events⟩

def outcome (j : Job) : Outcome := j.report.outcome

end Job

/-- The tokens of a source, from its lexemes. -/
def convert (source : Source) (lexemes : List Lexeme) (options : Options := {}) : Outcome :=
  Job.outcome { source, lexemes, options }

/-! ### A converter that answers once -/

/-- A converter gives its report to the first request only, even if that failed. -/
structure Converter where
  job : Job
  spent : Bool := false

/-- The answer to one more request: none if there was one before. -/
def Converter.request (t : Converter) : Option Report × Converter :=
  (if t.spent then none else some t.job.report, { t with spent := true })

/-- The message on a request that gets no answer. -/
def Converter.spentMessage : String := "Translator instances are single use"

theorem Converter.request_twice (t : Converter) : (t.request.2.request).1 = none := rfl

end RubyTokens
