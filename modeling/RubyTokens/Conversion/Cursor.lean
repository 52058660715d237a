import RubyTokens.Lexeme.Basic
import RubyTokens.Number.Integer

/-! The cursor over the lexemes of a source. A conversion reads the lexemes in the order of the
grammar, in which the body of a heredoc stands right behind its opener; the lexer reports the rest
of the opener's line first. So the cursor moves out of order: from an opener to the body, from the
end of the body back behind the opener, and from the end of the line past all bodies.

The cursor never moves at once. A move is a pending target, which the next advance goes to, and
there may be one pending target at a time. An index may be negative and then counts from the end of
the lexemes; an index outside of them is a fault, and one that does not fit 64 bits is a fault of
its own. Where a fault occurs, what was done before it stays done. -/

namespace RubyTokens

/-- The state of a walk. `openers` holds the indices of the heredoc openers whose body is being
read, the innermost first; `resume` is the index of the last heredoc end that was read, where the
walk goes on once the opener's line has been read. -/
structure Cursor where
  lexemes : List Lexeme
  index : Int := 0
  pending : Option Int := none
  last : Int := 0
  openers : List Int := []
  resume : Option Int := none
  deriving DecidableEq, Repr

namespace Cursor

/-- A request that the cursor cannot follow. -/
inductive Fault where
  | outOfRange
  | unfitIndex
  | pendingTarget (target : Int)
  | backwards
  deriving DecidableEq, Repr

def Fault.message : Fault → String
  | .outOfRange => "list index out of range"
  | .unfitIndex => "cannot fit 'int' into an index-sized integer"
  | .pendingTarget target => "Cursor already has a pending jump to " ++ decimal target
  | .backwards => "Cannot consume backwards"

/-- A heredoc or line end that changes the order of reading. -/
inductive Note where
  | opened (opener body : Int)
  | closed (terminator next : Int)
  | resumed (lineEnd next : Int)
  deriving DecidableEq, Repr

def Note.message : Note → String
  | .opened opener body =>
    "heredoc opener at " ++ decimal opener ++ ", body at " ++ decimal body
  | .closed terminator next =>
    "heredoc terminator at " ++ decimal terminator ++ ", replaying opener line from " ++
      decimal next
  | .resumed lineEnd next =>
    "line end at " ++ decimal lineEnd ++ ", resuming at " ++ decimal next

/-- A cursor after a request, what it notes, and the fault if there is one. -/
structure Moved where
  cursor : Cursor
  notes : List Note := []
  fault : Option Fault := none
  deriving DecidableEq, Repr

def start (lexemes : List Lexeme) : Cursor := { lexemes }

/-- The number of lexemes. -/
def size (c : Cursor) : Int := c.lexemes.length

def isExhausted (c : Cursor) : Bool := c.size ≤ c.index

/-! ### Looking at lexemes -/

/-- Whether an index fits 64 bits, one of which is for the sign. -/
def fits (i : Int) : Bool := -9223372036854775808 ≤ i && i < 9223372036854775808

/-- The lexeme at an index, counted from the end if it is negative. -/
def lexemeAt (c : Cursor) (i : Int) : Except Fault Lexeme :=
  let position := if i < 0 then i + c.size else i
  let found := if position < 0 then none else c.lexemes[position.toNat]?
  found.elim (.error (if fits i then .outOfRange else .unfitIndex)) .ok

def current (c : Cursor) : Except Fault Lexeme := c.lexemeAt c.index

/-- The last lexeme of the current step, which is the current one unless more were consumed. -/
def lastConsumed (c : Cursor) : Except Fault Lexeme := c.lexemeAt c.last

/-- The lexeme some places after the current one, if the lexemes reach that far. -/
def peek (c : Cursor) (ahead : Int) : Except Fault (Option Lexeme) :=
  if c.size ≤ c.index + ahead then .ok none else (c.lexemeAt (c.index + ahead)).map some

def peekKind (c : Cursor) (ahead : Int) : Except Fault (Option Text) :=
  (c.peek ahead).map (·.map Lexeme.kind)

/-- The first of `count` indices from `i` on whose lexeme has a property. -/
def search (c : Cursor) (p : Lexeme → Bool) : (count : Nat) → (i : Int) → Except Fault (Option Int)
  | 0, _ => .ok none
  | count + 1, i => do
    if p (← c.lexemeAt i) then return some i else c.search p count (i + 1)

/-- The first index from `i` on whose lexeme has a property. -/
def searchFrom (c : Cursor) (p : Lexeme → Bool) (i : Int) : Except Fault (Option Int) :=
  c.search p (c.size - i).toNat i

/-- The index of the next lexeme of a kind, the current one included. -/
def findForward (c : Cursor) (kind : Text) : Except Fault (Option Int) :=
  c.searchFrom (·.kind == kind) c.index

/-- The index of the first lexeme behind the current one that ends a line. -/
def findLineEnd (c : Cursor) : Except Fault (Option Int) :=
  c.searchFrom Lexeme.endsLine (c.index + 1)

/-- The place between lexemes that an index denotes as an end of a run. -/
def bound (c : Cursor) (i : Int) : Nat :=
  min (if i < 0 then i + c.size else i).toNat c.lexemes.length

/-- The lexemes from the current one up to and with the one at an index. -/
def runThrough (c : Cursor) (i : Int) : List Lexeme :=
  (c.lexemes.take (c.bound (i + 1))).drop (c.bound c.index)

/-! ### Moving -/

/-- Makes an index the pending target. -/
def jump (c : Cursor) (target : Int) : Moved :=
  match c.pending with
  | some t => { cursor := c, fault := some (.pendingTarget t) }
  | none => { cursor := { c with pending := some target } }

/-- Notes something before a move. -/
def Moved.noting (note : Note) (m : Moved) : Moved := { m with notes := note :: m.notes }

/-- Goes to the pending target, or to the next lexeme. -/
def advance (c : Cursor) : Cursor :=
  let i := c.pending.getD (c.index + 1)
  { c with index := i, pending := none, last := i }

/-- Makes the next lexemes part of the current step. -/
def consume (c : Cursor) (count : Int) : Moved :=
  { c with last := c.index + count }.jump (c.index + 1 + count)

/-- Makes the lexemes up to and with the one at an index part of the current step. -/
def consumeThrough (c : Cursor) (i : Int) : Moved :=
  if i < c.index then { cursor := c, fault := some .backwards }
  else { c with last := i }.jump (i + 1)

/-- Ends the walk after the current step. -/
def finish (c : Cursor) : Moved := c.jump c.size

/-- Where the body of a heredoc starts that is opened here: behind the last body that was read
since the line began, or behind the end of the line. -/
def bodyStart (c : Cursor) : Except Fault (Option Int) :=
  match c.resume with
  | some i => .ok (some (i + 1))
  | none => c.findLineEnd.map (·.map (· + 1))

/-- Moves from an opener to the body of its heredoc. Without a line end behind the opener the
lexemes are in the order of the grammar already, and nothing moves. -/
def openHeredoc (c : Cursor) : Moved :=
  match c.bodyStart with
  | .error fault => { cursor := c, fault := some fault }
  | .ok none => { cursor := c }
  | .ok (some body) =>
    ({ c with openers := c.index :: c.openers }.jump body).noting (.opened c.index body)

/-- Moves from the end of a heredoc behind its opener. An end without an opener stays in place. -/
def closeHeredoc (c : Cursor) : Moved :=
  match c.openers with
  | [] => { cursor := c }
  | opener :: openers =>
    ({ c with openers, resume := some c.index }.jump (opener + 1)).noting
      (.closed c.index (opener + 1))

/-- Moves from the end of a line past the heredoc bodies that were read before it. Inside a body
nothing moves. -/
def endLine (c : Cursor) : Moved :=
  match c.resume, c.openers with
  | some i, [] =>
    let m := c.jump (i + 1)
    let m := if m.fault.isNone then { m with cursor.resume := none } else m
    m.noting (.resumed c.index (i + 1))
  | _, _ => { cursor := c }

end Cursor

end RubyTokens
