import RubyTokens.Command.Arguments
import RubyTokens.Command.FileTree
import RubyTokens.Lexeme.Dump
import RubyTokens.Token.Listing
import RubyTokens.Conversion.Run

/-! The command that lists the tokens of one source. It reads the source and the dump, in this order
and with all line ends unified, converts the lexemes, and either prints the listing or writes it to
a file whose directories it makes. On request the course of the conversion is reported too. -/

namespace RubyTokens

/-- A place on the command line that a command needs a value in. -/
inductive NeededPlace where
  | input | output | profile | number
  deriving DecidableEq, Repr

/-- The message where a place was left vacant. -/
def NeededPlace.vacantMessage : NeededPlace → String
  | .input => "'list' object has no attribute 'read_text'"
  | .output => "'list' object has no attribute 'parent'"
  | .profile => "[] is not a valid TokenizerProfile"
  | .number => "a number is missing"

/-- Why a command stops. -/
inductive CommandError where
  | vacant (place : NeededPlace)
  | file (error : FileError)
  | dump (error : DumpError)
  | failed (failure : Failure)
  | unfinished
  | listing (error : ListingError)

def CommandError.message : CommandError → String
  | .vacant place => place.vacantMessage
  | .file e => e.message
  | .dump e => e.message
  | .failed failure => failure.message
  | .unfinished => "the conversion does not come to an end"
  | .listing e => e.message

/-- Reads a file as text. -/
abbrev ReadFile := Path → Except FileError String

def readText (read : ReadFile) (p : Path) : Except CommandError String :=
  match read p with
  | .ok text => .ok (String.ofList (unifyNewlines text.toList))
  | .error e => .error (.file e)

/-- The source under a path, whose name is the path. -/
def readSource (read : ReadFile) (p : Path) : Except CommandError Source := do
  return ⟨p.text, ← readText read p⟩

def readDump (read : ReadFile) (p : Path) : Except CommandError (List Lexeme) := do
  (Dump.read p.text (← readText read p)).mapError .dump

/-- The tokens of a job, and its events. -/
def Job.tokens (j : Job) : Except CommandError (List Token × List Event) :=
  match j.report with
  | ⟨.tokens tokens, events⟩ => .ok (tokens, events)
  | ⟨.failed failure, _⟩ => .error (.failed failure)
  | ⟨.unfinished, _⟩ => .error .unfinished

/-- The value in a place, which may have been left vacant. -/
def filled {α : Type} (place : NeededPlace) (value : Option α) : Except CommandError α :=
  value.elim (.error (.vacant place)) .ok

/-- A request for a listing. The dump, the profile and the output, if one is asked for, are missing
where their places were left vacant; this is found out when they are needed. -/
structure ListingRequest where
  source : Path
  dump : Option Path
  output : Option (Option Path)
  profile : Option Profile
  verbose : Bool
  deriving DecidableEq, Repr

/-- The listing of a request, line by line, and the events on the way. -/
structure Listing where
  lines : List String
  events : List Event

namespace ListingRequest

def options : List CommandOption :=
  [⟨"--output", some fun _ => true⟩, ⟨"--profile", some fun v => (Profile.ofName? v).isSome⟩,
    ⟨"--verbose", none⟩]

/-- The request of a command line; none if it asks for help. -/
def ofArguments (args : List String) : Except UsageError (Option ListingRequest) := do
  match ← CommandLine.read options 2 args with
  | .ready [some source, dump] settings =>
    return some {
      source := .ofString source
      dump := dump.map .ofString
      output := (settings.lookup "--output").map (·.map .ofString)
      profile := (settings.lookup "--profile").elim (some .current) (·.bind Profile.ofName?)
      verbose := (settings.lookup "--verbose").isSome }
  | _ => return none

def listing (r : ListingRequest) (read : ReadFile) : Except CommandError Listing := do
  let source ← readSource read r.source
  let profile ← filled .profile r.profile
  let lexemes ← readDump read (← filled .input r.dump)
  let job : Job := { source, lexemes, options := .ofProfile profile }
  let (tokens, events) ← job.tokens
  let lines ← (listTokens source tokens).mapError .listing
  return ⟨lines, events⟩

end ListingRequest

namespace Listing

/-- What is printed: the lines with line ends between them. -/
def printed (l : Listing) : String := String.intercalate "\n" l.lines

/-- What is written to a file: every line with its line end. -/
def written (l : Listing) : String := String.join (l.lines.map (· ++ "\n"))

/-- The last line of a request that writes to a file. -/
def receipt (l : Listing) (output : Path) : String :=
  s!"Wrote {l.lines.length} tokens to {output.text}"

/-- The report on the course of the conversion. -/
def eventLines (l : Listing) : List String := l.events.map fun e => "[DEBUG] " ++ e.message

end Listing

/-- What a listing command leaves: its two output streams and the file it wrote, if any. -/
structure ListingAnswer where
  stdout : String
  stderr : String
  written : Option (Location × String)
  deriving DecidableEq, Repr

/-- Answers a request in a file tree. -/
def ListingRequest.answer (r : ListingRequest) (tree : FileTree) :
    Except CommandError ListingAnswer := do
  let listing ← r.listing tree.read
  let stderr := if r.verbose then String.join (listing.eventLines.map (· ++ "\n")) else ""
  match r.output with
  | none => return ⟨listing.printed ++ "\n", stderr, none⟩
  | some output =>
    let output ← filled .output output
    let place ← (tree.place output).mapError .file
    return ⟨listing.receipt output ++ "\n", stderr, some (place, listing.written)⟩

theorem Listing.written_eq_printed {l : Listing} (h : l.lines ≠ []) :
    l.written = l.printed ++ "\n" := by
  obtain ⟨lines, events⟩ := l
  have key : ∀ (x : String) (xs : List String),
      String.join ((x :: xs).map (· ++ "\n")) = String.intercalate "\n" (x :: xs) ++ "\n" := by
    intro x xs
    induction xs generalizing x with
    | nil => simp
    | cons y ys ih =>
      rw [List.map_cons, String.join_cons, ih y]
      simp [String.intercalate_cons_cons, String.append_assoc]
  cases lines with
  | nil => exact absurd rfl h
  | cons x xs => exact key x xs

end RubyTokens
